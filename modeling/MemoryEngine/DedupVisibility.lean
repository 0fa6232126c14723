import MemoryEngine.Dedup
import MemoryEngine.QueryFilters

/-! Who can still see what a dedup plan folds away. The scan compares facts by
similarity and importance alone, so a fact can be folded into one that no query of
its own scope, type or instant returns. -/

namespace MemoryEngine
open Time KeyedTable MergeLog

/-- Whatever scope, type and instant return the one fact return the other. -/
structure Fact.Covers (survivor loser : Fact) : Prop where
  placed : survivor.scope_id = loser.scope_id
  typed : survivor.fact_type = loser.fact_type
  valid : ∀ at_, loser.ValidAt at_ → survivor.ValidAt at_

theorem Fact.Covers.refl (f : Fact) : f.Covers f := ⟨rfl,rfl,fun _ valid => valid⟩

theorem Fact.Covers.trans {f g h : Fact} (first : g.Covers f) (second : h.Covers g) : h.Covers f where
  placed := second.placed.trans first.placed
  typed := second.typed.trans first.typed
  valid := fun at_ valid => second.valid at_ (first.valid at_ valid)

/-- Between active facts, covering is what the filters of the search channels and
    their cutoff make of it. -/
theorem Fact.covers_iff {survivor loser : Fact} (active : loser.t_expired = none) (active' : survivor.t_expired = none) :
    survivor.Covers loser ↔ (∀ filter : FactFilter, filter.admits loser = true → filter.admits survivor = true) ∧
      ∀ cutoff, Search.passes_temporal_cutoff loser cutoff = true → Search.passes_temporal_cutoff survivor cutoff = true := by
  constructor
  · intro covers
    refine ⟨fun filter admitted => ?_,fun cutoff passes => ?_⟩
    · obtain ⟨_,typed,placed⟩ := FactFilter.admits_iff.mp admitted
      refine FactFilter.admits_iff.mpr ⟨active',?_,?_⟩
      · rw [covers.typed]
        exact typed
      · rw [covers.placed]
        exact placed
    · rw [Search.passes_temporal_cutoff_iff] at passes ⊢
      exact covers.valid cutoff passes
  · rintro ⟨filters,cutoffs⟩
    have own := filters ⟨some loser.fact_type,some [loser.scope_id]⟩ (FactFilter.admits_iff.mpr ⟨active,by simp,by simp⟩)
    obtain ⟨_,typed,placed⟩ := FactFilter.admits_iff.mp own
    refine ⟨by simpa using placed,typed _ rfl,fun at_ valid => ?_⟩
    have passes := cutoffs at_ (Search.passes_temporal_cutoff_iff.mpr valid)
    exact Search.passes_temporal_cutoff_iff.mp passes

/-- Every fact the plan folds away ends at a kept fact that is returned wherever it
    was. -/
def DedupComputed.KeepsVisible (computed : DedupComputed) (facts : List Fact) : Prop :=
  ∀ loser ∈ facts, loser.id ∈ computed.losers →
    ∃ survivor ∈ facts, Relation.TransGen computed.MergedInto loser.id survivor.id ∧ survivor.id ∉ computed.losers ∧
      survivor.Covers loser

namespace Dedup

/-- Of a pair, the fact that stays. -/
def kept (f g : Fact) : Fact := if choose_expiry f.base_importance f.id g.base_importance g.id = f.id then g else f

/-- Of a pair, the fact that is folded into the other one. -/
def spent (f g : Fact) : Fact := if choose_expiry f.base_importance f.id g.base_importance g.id = f.id then f else g

theorem choose_expiry_ids (f g : Fact) : choose_expiry f.base_importance f.id g.base_importance g.id = (spent f g).id := by
  unfold spent
  rcases choose_expiry_cases f g with ⟨first,_⟩ | ⟨second,_⟩
  · rw [if_pos first,first]
  · split
    · assumption
    · exact second

variable (similarity : Embedding → Embedding → F32) (threshold : F32)

/-- The scan counts the two facts as duplicates, whichever is left when it meets them. -/
structure Compared (f g : Fact) : Prop where
  apart : g.id ≠ f.id
  free : f.is_pinned = false
  free' : g.is_pinned = false
  alike : duplicates similarity threshold f g = true

/-- Every merge is one of a driver with a duplicate among the facts. -/
def Drawn (news facts : List Fact) (expirations : List Expiry) : Prop :=
  ∀ e ∈ expirations, ∃ f ∈ news, ∃ g ∈ facts, Compared similarity threshold f g ∧ e = ⟨(spent f g).id,(kept f g).id⟩

/-- Of every two duplicates that a scan can meet, the one that stays covers the other. -/
def PairsCover (facts : List Fact) (since : Option DateTime) : Prop :=
  ∀ f ∈ drivers facts since, ∀ g ∈ facts, Compared similarity threshold f g → (kept f g).Covers (spent f g)

variable {similarity threshold}

theorem drawn_mergePair {news facts : List Fact} {scan : Scan} {new_fact candidate : Fact}
    (drawn : Drawn similarity threshold news facts scan.expirations) (left : new_fact ∈ news) (right : candidate ∈ facts)
    (compared : Compared similarity threshold new_fact candidate) :
    Drawn similarity threshold news facts (mergePair new_fact candidate
      (choose_expiry new_fact.base_importance new_fact.id candidate.base_importance candidate.id) scan).expirations := by
  intro e listed
  have either : e ∈ scan.expirations ∨ e = ⟨(spent new_fact candidate).id,(kept new_fact candidate).id⟩ := by
    rw [← choose_expiry_ids]
    unfold mergePair at listed
    unfold kept
    by_cases itself : choose_expiry new_fact.base_importance new_fact.id candidate.base_importance candidate.id = new_fact.id
    · rw [if_pos itself]
      rw [if_pos itself] at listed
      simpa [inherit_max_importance] using listed
    · rw [if_neg itself]
      rw [if_neg itself] at listed
      simpa [inherit_max_importance] using listed
  rcases either with old | new
  · exact drawn e old
  · exact ⟨new_fact,left,candidate,right,compared,new⟩

theorem drawn_scanCandidates {news facts candidates : List Fact} {scan : Scan} {new_fact : Fact}
    (drawn : Drawn similarity threshold news facts scan.expirations) (left : new_fact ∈ news) (free : new_fact.is_pinned = false)
    (sub : candidates ⊆ facts) :
    Drawn similarity threshold news facts (scanCandidates similarity threshold new_fact candidates scan).expirations := by
  induction candidates generalizing scan with
  | nil => exact drawn
  | cons candidate rest ih =>
    obtain ⟨right,subRest⟩ := List.cons_subset.mp sub
    unfold scanCandidates
    by_cases skip : candidate.id = new_fact.id ∨ candidate.id ∈ scan.expired_ids ∨ candidate.is_pinned = true
    · rw [if_pos skip]
      exact ih drawn subRest
    · rw [if_neg skip]
      obtain ⟨apart,_,free'⟩ : candidate.id ≠ new_fact.id ∧ candidate.id ∉ scan.expired_ids ∧ candidate.is_pinned = false := by
        simpa only [not_or,Bool.not_eq_true] using skip
      by_cases alike : duplicates similarity threshold new_fact candidate = true
      · rw [if_pos alike]
        have merged := drawn_mergePair drawn left right ⟨apart,free,free',alike⟩
        by_cases itself : choose_expiry new_fact.base_importance new_fact.id candidate.base_importance candidate.id = new_fact.id
        · simp only [if_pos itself]
          exact merged
        · simp only [if_neg itself]
          exact ih merged subRest
      · rw [if_neg alike]
        exact ih drawn subRest

theorem drawn_scanFact {news facts : List Fact} {scan : Scan} {new_fact : Fact}
    (drawn : Drawn similarity threshold news facts scan.expirations) (left : new_fact ∈ news) :
    Drawn similarity threshold news facts (scanFact similarity threshold facts scan new_fact).expirations := by
  unfold scanFact
  by_cases skip : new_fact.id ∈ scan.expired_ids ∨ new_fact.is_pinned = true
  · rw [if_pos skip]
    exact drawn
  · rw [if_neg skip]
    obtain ⟨_,free⟩ := not_or.mp skip
    exact drawn_scanCandidates drawn left (by simpa using free) (List.Subset.refl _)

/-- The whole scan merges nothing but such pairs. -/
theorem drawn_scanFacts {news facts rest : List Fact} {scan : Scan} (drawn : Drawn similarity threshold news facts scan.expirations)
    (sub : rest ⊆ news) :
    Drawn similarity threshold news facts (rest.foldl (scanFact similarity threshold facts) scan).expirations := by
  induction rest generalizing scan with
  | nil => exact drawn
  | cons f rest ih =>
    obtain ⟨left,subRest⟩ := List.cons_subset.mp sub
    exact ih (drawn_scanFact drawn left) subRest

variable (similarity threshold) in
theorem drawn_compute_dedup (facts : List Fact) (max_facts : Nat) (since : Option DateTime) :
    Drawn similarity threshold (drivers facts since) facts
      (compute_dedup similarity threshold facts max_facts since).expirations := by
  unfold compute_dedup
  by_cases large : facts.length > max_facts
  · rw [if_pos large]
    rintro _ ⟨⟩
  · rw [if_neg large]
    have empty : Drawn similarity threshold (drivers facts since) facts ({} : Scan).expirations := by
      rintro _ ⟨⟩
    exact drawn_scanFacts empty (List.Subset.refl _)

theorem kept_mem {facts : List Fact} {f g : Fact} (left : f ∈ facts) (right : g ∈ facts) : kept f g ∈ facts := by
  unfold kept
  split
  · exact right
  · exact left

theorem spent_mem {facts : List Fact} {f g : Fact} (left : f ∈ facts) (right : g ∈ facts) : spent f g ∈ facts := by
  unfold spent
  split
  · exact left
  · exact right

/-- Where every pair of duplicates is covered, so is every chain of merges. -/
theorem PairsCover.chain {facts : List Fact} {max_facts : Nat} {since : Option DateTime} (distinct : (facts.map Fact.id).Nodup)
    (pairs : PairsCover similarity threshold facts since) {loser : Fact} (member : loser ∈ facts) {id : FactId}
    (chain : Relation.TransGen (compute_dedup similarity threshold facts max_facts since).MergedInto loser.id id) :
    ∃ survivor ∈ facts, survivor.id = id ∧ survivor.Covers loser := by
  -- one merge, from the fact with its first id
  have step : ∀ {f : Fact} {id}, f ∈ facts → (compute_dedup similarity threshold facts max_facts since).MergedInto f.id id →
      ∃ g ∈ facts, g.id = id ∧ g.Covers f := by
    intro f id held into
    obtain ⟨a,driver,b,other,compared,shape⟩ := drawn_compute_dedup similarity threshold facts max_facts since _ into
    obtain ⟨first,second⟩ := Expiry.mk.inj shape
    have here := drivers_subset facts since driver
    have same : f = spent a b := List.inj_on_of_nodup_map distinct held (spent_mem here other) first
    rw [same]
    exact ⟨kept a b,kept_mem here other,second.symm,pairs a driver b other compared⟩
  induction chain with
  | single into => exact step member into
  | tail _ into ih =>
    obtain ⟨middle,held,rfl,covers⟩ := ih
    obtain ⟨last,held',same,covers'⟩ := step held into
    exact ⟨last,held',same,covers.trans covers'⟩

theorem PairsCover.keeps {facts : List Fact} {max_facts : Nat} {since : Option DateTime} (distinct : (facts.map Fact.id).Nodup)
    (pairs : PairsCover similarity threshold facts since) :
    (compute_dedup similarity threshold facts max_facts since).KeepsVisible facts := by
  intro loser member folded
  obtain ⟨planned,_⟩ := compute_dedup_spec similarity threshold facts max_facts since
  obtain ⟨survivor,held,chain,stays⟩ := planned.ends folded
  obtain ⟨_,held',same,covers⟩ := pairs.chain distinct member chain
  rw [List.inj_on_of_nodup_map distinct held' held same] at covers
  exact ⟨survivor,held,chain,stays,covers⟩

theorem mem_drivers {facts : List Fact} {since : Option DateTime} {f : Fact} :
    f ∈ drivers facts since ↔ f ∈ facts ∧ ∀ since_dt ∈ since, f.t_created > since_dt := by
  cases since with
  | none => simp [drivers]
  | some since_dt => simp [drivers,List.mem_filter]

theorem PairsCover.part {facts part : List Fact} {since : Option DateTime} (sub : part ⊆ facts)
    (pairs : PairsCover similarity threshold facts since) : PairsCover similarity threshold part since := by
  intro f driver g other compared
  obtain ⟨member,recent⟩ := mem_drivers.mp driver
  exact pairs f (mem_drivers.mpr ⟨sub member,recent⟩) g (sub other) compared

end Dedup

/-- The content of the small store's first fact, as a fact of a scope. -/
def Sample.placed (id : FactId) (scope_id : Int) : Fact :=
  FactStore.newRow Sample.backend { Sample.newFact "a" with scope_id := scope_id } 0 id

end MemoryEngine
