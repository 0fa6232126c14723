import MemoryEngine.ResumeRows
import MemoryEngine.Reinforce

/-! The tiers of a resumed session are the first facts of their kinds by time as long as
the texts of their times sort like the times. -/

namespace MemoryEngine
open Time DateTime KeyedTable Transaction Ranking

namespace Time.DateTime
variable {a b : DateTime}

/-- The text of an instant that does not read back sorts before all that do. -/
theorem unreadable_textLt (unread : ¬ a.Readable) (read : b.Readable) : a.textLt b = true := by
  have signed : ¬ (0 ≤ a.year ∧ a.year ≤ 9999) := unread
  rw [textLt_iff,year_text_of_four read.1 read.2,year_text,if_neg signed,List.cons_append]
  split
  · exact sign_lt_digits minus_lt_digit 3 _ _ _
  · exact sign_lt_digits plus_lt_digit 3 _ _ _

/-- Instants that read back compare like their texts. -/
theorem textLt_iff_of_readable (read : a.Readable) (read' : b.Readable) (leaps : Leaps a) (leaps' : Leaps b) :
    a.textLt b = true ↔ a < b := by
  have low := read.1
  have high := read.2
  have low' := read'.1
  have high' := read'.2
  exact textLt_iff_lt ⟨by omega,by omega,leaps⟩ ⟨by omega,by omega,leaps'⟩ (by omega)

end Time.DateTime

/-- The instants of the fact are those that their texts spell. -/
structure Fact.Regular (f : Fact) : Prop where
  created : Leaps f.t_created
  valid : ∀ t ∈ f.t_valid, Leaps t
  invalid : ∀ t ∈ f.t_invalid, Leaps t

instance (t : DateTime) : Decidable (Leaps t) := inferInstanceAs (Decidable (_ → _))

instance (f : Fact) : Decidable f.Regular :=
  decidable_of_iff (Leaps f.t_created ∧ (∀ t ∈ f.t_valid, Leaps t) ∧ ∀ t ∈ f.t_invalid, Leaps t)
    ⟨fun ⟨created,valid,invalid⟩ => ⟨created,valid,invalid⟩,fun regular => ⟨regular.created,regular.valid,regular.invalid⟩⟩

/-- The time from which a fact with a valid time is valid. -/
def Fact.valid_from (f : Fact) : DateTime := f.t_valid.getD f.t_created

/-- The active facts of the scopes outside the given ids. -/
def Tables.remaining (scope_ids : List Int) (exclude : List FactId) (t : Tables) : List Fact :=
  t.activeFacts.filter fun f => scope_ids.contains f.scope_id && !exclude.contains f.id

theorem Tables.activeFacts_nodup (t : Tables) : t.activeFacts.Nodup := (t.facts.keys_nodup.of_map _).filter _

section scans
variable {rows : Shuffle Fact} {scope_ids : List Int} {exclude : List FactId} {limit : Nat} {t : Tables} {p : Fact → Bool}

/-- A limit above all rows cuts nothing. -/
theorem take_limit_i64 (small : t.facts.rows.length ≤ I64_MAX) {l : List Fact} (part : l.Perm (t.facts.rows.filter p)) :
    l.take (limit_i64 limit) = l.take limit := by
  have long := part.length_eq.trans_le (List.length_filter_le p t.facts.rows)
  unfold limit_i64
  rcases Nat.le_total limit I64_MAX with low | high
  · rw [Nat.min_eq_left low]
  · rw [Nat.min_eq_right high,List.take_of_length_le (by omega),List.take_of_length_le (by omega)]

theorem scan_perm : ((rows.order t.facts.rows).filter p).Perm (t.facts.rows.filter p) := (rows.perm _).filter p

/-- A scan with an order by the key finds the first rows by the key. -/
theorem top_scan {σ : Type} [LinearOrder σ] {key : Fact → σ} (small : t.facts.rows.length ≤ I64_MAX) :
    Top key limit (t.facts.rows.filter p) ((descending key ((rows.order t.facts.rows).filter p)).take (limit_i64 limit)) := by
  have same : (descending key ((rows.order t.facts.rows).filter p)).Perm (t.facts.rows.filter p) := (descending_perm key _).trans scan_perm
  rw [take_limit_i64 small same]
  exact top_take (descending_sorted key _) same

end scans

section due
variable {now : DateTime} {limit : Nat} {listed : List Fact}

theorem dueByText_iff {f : Fact} : FactStore.dueByText now f = true ↔
    (∃ tv, f.t_valid = some tv ∧ now.textLt tv = false) ∧ ∀ ti ∈ f.t_invalid, now.textLt ti = true := by
  cases set : f.t_valid <;> cases ends : f.t_invalid <;> simp [FactStore.dueByText,set,ends]

theorem is_temporally_due_iff {f : Fact} : f.is_temporally_due now = true ↔
    (∃ tv, f.t_valid = some tv ∧ tv ≤ now) ∧ ∀ ti ∈ f.t_invalid, now < ti := by
  cases set : f.t_valid <;> cases ends : f.t_invalid <;> simp [Fact.is_temporally_due,set,ends]

/-- A fact whose valid time reads back is due if its texts say so. -/
theorem due_of_text {f : Fact} (regular : f.Regular) (leaps : Leaps now) (legible : ∀ tv ∈ f.t_valid, tv.Readable)
    (spelled : FactStore.dueByText now f = true) : f.is_temporally_due now = true := by
  obtain ⟨⟨tv,set,begun⟩,ongoing⟩ := dueByText_iff.mp spelled
  have read := legible tv set
  have now_read : now.Readable := by
    by_contra unread
    rw [unreadable_textLt unread read] at begun
    cases begun
  refine is_temporally_due_iff.mpr ⟨⟨tv,set,?_⟩,fun ti ends => ?_⟩
  · refine not_lt.mp fun later => ?_
    rw [(textLt_iff_of_readable now_read read leaps (regular.valid tv set)).mpr later] at begun
    cases begun
  · have after := ongoing ti ends
    have read' : ti.Readable := by
      by_contra unread
      have loop := textLt_asymm after
      rw [unreadable_textLt unread now_read] at loop
      cases loop
    exact (textLt_iff_of_readable now_read read' leaps (regular.invalid ti ends)).mp after

theorem validText_lt_iff {f g : Fact} {tv tv' : DateTime} (set : f.t_valid = some tv) (set' : g.t_valid = some tv') :
    FactStore.validText f < FactStore.validText g ↔ tv.textLt tv' = true := by
  rw [FactStore.validText,FactStore.validText,set,set']
  exact decide_eq_true_iff.symm

/-- Facts in the order of their texts have legible times when the first one has. -/
theorem legible_of_first (room : 0 < limit) (sorted : listed.Pairwise fun f g => FactStore.validText f ≤ FactStore.validText g)
    (timed : ∀ f ∈ listed, f.t_valid.isSome) (first : ∀ f ∈ listed.take limit, ∀ tv ∈ f.t_valid, tv.Readable) :
    ∀ f ∈ listed, ∀ tv ∈ f.t_valid, tv.Readable := by
  cases listed with
  | nil => exact fun f member => by cases member
  | cons g rest =>
    have head : g ∈ (g :: rest).take limit := by
      obtain ⟨n,rfl⟩ := Nat.exists_eq_add_one.mpr room
      exact List.mem_cons_self
    intro f member tv set
    rcases List.mem_cons.mp member with rfl | later
    · exact first f head tv set
    · obtain ⟨tv',set'⟩ := Option.isSome_iff_exists.mp (timed g List.mem_cons_self)
      by_contra unread
      have ahead := unreadable_textLt unread (first g head tv' set')
      exact absurd ((validText_lt_iff set set').mpr ahead) (not_lt.mpr ((List.pairwise_cons.mp sorted).1 f later))

/-- In legible facts the order of the texts is that of the valid times. -/
theorem valid_from_sorted (regular : ∀ f ∈ listed, f.Regular) (timed : ∀ f ∈ listed, f.t_valid.isSome)
    (legible : ∀ f ∈ listed, ∀ tv ∈ f.t_valid, tv.Readable)
    (sorted : listed.Pairwise fun f g => FactStore.validText f ≤ FactStore.validText g) :
    listed.Pairwise fun f g => f.valid_from ≤ g.valid_from := by
  refine sorted.imp_of_mem fun {f g} member member' ordered => not_lt.mp fun later => ?_
  obtain ⟨tv,set⟩ := Option.isSome_iff_exists.mp (timed f member)
  obtain ⟨tv',set'⟩ := Option.isSome_iff_exists.mp (timed g member')
  rw [Fact.valid_from,Fact.valid_from,set,set'] at later
  have ahead := (textLt_iff_of_readable (legible g member' tv' set') (legible f member tv set)
    ((regular g member').valid tv' set') ((regular f member).valid tv set)).mpr later
  exact absurd ((validText_lt_iff set' set).mpr ahead) (not_lt.mpr ordered)

/-- The first facts that the texts call due are the first due ones, unless a due fact
    that they do not call so comes before enough others. -/
theorem top_due_iff {pool : List Fact} (distinct : pool.Nodup) (contents : listed.Perm (pool.filter (FactStore.dueByText now)))
    (sorted : listed.Pairwise fun f g => FactStore.validText f ≤ FactStore.validText g) (room : 0 < limit)
    (regular : ∀ f ∈ pool, f.Regular) (leaps : Leaps now) (first : ∀ f ∈ listed.take limit, ∀ tv ∈ f.t_valid, tv.Readable) :
    Top (fun f => OrderDual.toDual f.valid_from) limit (pool.filter (Fact.is_temporally_due now)) (listed.take limit) ↔
      ∀ f ∈ pool, f.is_temporally_due now = true → FactStore.dueByText now f = false →
        limit ≤ pool.countP fun g => FactStore.dueByText now g && decide (g.valid_from ≤ f.valid_from) := by
  have spelled : ∀ f ∈ listed, f ∈ pool ∧ FactStore.dueByText now f = true := fun f member =>
    List.mem_filter.mp (contents.mem_iff.mp member)
  have timed : ∀ f ∈ listed, f.t_valid.isSome := fun f member => by
    obtain ⟨⟨tv,set,_⟩,_⟩ := dueByText_iff.mp (spelled f member).2
    exact Option.isSome_iff_exists.mpr ⟨tv,set⟩
  have legible := legible_of_first room sorted timed first
  have ordered := valid_from_sorted (fun f member => regular f (spelled f member).1) timed legible sorted
  have due : ∀ f ∈ listed, f.is_temporally_due now = true := fun f member =>
    due_of_text (regular f (spelled f member).1) leaps (legible f member) (spelled f member).2
  have unique : listed.Nodup := contents.nodup_iff.mpr (distinct.filter _)
  have cut : Top (fun f : Fact => OrderDual.toDual f.valid_from) limit (pool.filter (Fact.is_temporally_due now)) (listed.take limit) ↔ _ :=
    top_take_iff ordered unique (distinct.filter _)
  rw [cut]
  have inside : ∀ f ∈ listed.take limit, f ∈ pool.filter (Fact.is_temporally_due now) := fun f kept => by
    have member := List.mem_of_mem_take kept
    exact List.mem_filter.mpr ⟨(spelled f member).1,due f member⟩
  rw [and_iff_right inside]
  have missing : ∀ f ∈ pool, f ∉ listed ↔ FactStore.dueByText now f = false := fun f member => by
    rw [contents.mem_iff,List.mem_filter,and_iff_right member,Bool.not_eq_true]
  have counted : ∀ f : Fact, listed.countP (fun g => OrderDual.toDual f.valid_from ≤ OrderDual.toDual g.valid_from) =
      pool.countP fun g => FactStore.dueByText now g && decide (g.valid_from ≤ f.valid_from) := fun f => by
    rw [contents.countP_eq,List.countP_filter]
    simp only [OrderDual.toDual_le_toDual,Bool.and_comm]
  constructor
  · intro enough f member come unspelled
    rw [← counted f]
    exact enough f (List.mem_filter.mpr ⟨member,come⟩) ((missing f member).mpr unspelled)
  · intro enough f admitted absent
    obtain ⟨member,come⟩ := List.mem_filter.mp admitted
    rw [counted f]
    exact enough f member come ((missing f member).mp absent)

end due

section recent
variable {limit : Nat} {listed pool : List Fact}

/-- The fact has a legible creation time. -/
def Fact.dated (f : Fact) : Bool := decide f.t_created.Readable

/-- In legible facts the order of the texts is that of the creation times. -/
theorem created_sorted (regular : ∀ f ∈ listed, f.Regular)
    (sorted : listed.Pairwise fun f g => g.t_created.to_rfc3339 ≤ f.t_created.to_rfc3339) :
    (listed.filter Fact.dated).Pairwise fun f g => g.t_created ≤ f.t_created := by
  refine (sorted.filter _).imp_of_mem fun {f g} kept kept' ordered => not_lt.mp fun later => ?_
  obtain ⟨member,read⟩ := List.mem_filter.mp kept
  obtain ⟨member',read'⟩ := List.mem_filter.mp kept'
  have ahead := (textLt_iff_of_readable (of_decide_eq_true read) (of_decide_eq_true read') (regular f member).created
    (regular g member').created).mpr later
  exact absurd (of_decide_eq_true ahead) (not_lt.mpr ordered)

/-- When the first facts by text have legible times, they are the latest ones exactly
    when no fact is from a year beyond 9999. -/
theorem top_recent_iff (distinct : pool.Nodup) (contents : listed.Perm pool)
    (sorted : listed.Pairwise fun f g => g.t_created.to_rfc3339 ≤ f.t_created.to_rfc3339) (room : 0 < limit)
    (regular : ∀ f ∈ pool, f.Regular) (first : ∀ f ∈ listed.take limit, f.t_created.Readable) :
    Top Fact.t_created limit pool (listed.take limit) ↔ ∀ f ∈ pool, f.t_created.year ≤ 9999 := by
  have legible : listed.take limit = (listed.filter Fact.dated).take limit :=
    take_filter_of_all fun f kept => decide_eq_true (first f kept)
  have unique : listed.Nodup := contents.nodup_iff.mpr distinct
  rw [legible,top_take_iff (created_sorted (fun f member => regular f (contents.mem_iff.mp member)) sorted) (unique.filter _) distinct]
  have inside : ∀ f ∈ (listed.filter Fact.dated).take limit, f ∈ pool := fun f kept =>
    contents.mem_iff.mp (List.mem_filter.mp (List.mem_of_mem_take kept)).1
  rw [and_iff_right inside]
  have missing : ∀ f ∈ pool, f ∉ listed.filter Fact.dated ↔ ¬ f.t_created.Readable := fun f member => by
    rw [List.mem_filter,and_iff_right (contents.mem_iff.mpr member),Fact.dated,decide_eq_true_iff]
  constructor
  · intro enough f member
    by_contra late
    have unread : ¬ f.t_created.Readable := fun read => late read.2
    have above := enough f member ((missing f member).mpr unread)
    -- no legible time is as late as one beyond the year 9999
    have none_above : (listed.filter Fact.dated).countP (fun g => f.t_created ≤ g.t_created) = 0 := by
      refine List.countP_eq_zero.mpr fun g kept => ?_
      have read : g.t_created.Readable := of_decide_eq_true (List.mem_filter.mp kept).2
      have before : g.t_created < f.t_created := (lt_iff _ _).mpr (.inl (lt_of_le_of_lt read.2 (not_le.mp late)))
      simpa using before
    omega
  · intro early f member absent
    have unread := (missing f member).mp absent
    have below : f.t_created.year < 0 := by
      by_contra four
      exact unread ⟨not_lt.mp four,early f member⟩
    have all_above : (listed.filter Fact.dated).countP (fun g => f.t_created ≤ g.t_created) = (listed.filter Fact.dated).length := by
      refine List.countP_eq_length.mpr fun g kept => ?_
      have read : g.t_created.Readable := of_decide_eq_true (List.mem_filter.mp kept).2
      have after : f.t_created < g.t_created := (lt_iff _ _).mpr (.inl (lt_of_lt_of_le below read.1))
      simpa using after.le
    rw [all_above]
    -- with room for all the legible ones the fact would have been among the first
    have shorter : (listed.filter Fact.dated).length < listed.length :=
      List.length_filter_lt_length_iff_exists.mpr ⟨f,contents.mem_iff.mpr member,by simpa [Fact.dated] using unread⟩
    have lengths := congrArg List.length legible
    rw [List.length_take,List.length_take] at lengths
    omega

end recent

/-- The tiers of a store: disjoint, and each the first facts of its kind that no tier
    before it has. -/
structure Tiers (config : ResumeConfig) (now : DateTime) (scope_ids : List Int) (t : Tables) (r : ResumeContext) : Prop where
  distinct : (r.facts.map Fact.id).Nodup
  pinned : Top Fact.importance_score config.pinned_cap (t.activeFacts.filter Fact.is_pinned) r.pinned
  high_importance : Top Fact.importance_score config.high_importance_cap
    ((t.remaining scope_ids (r.pinned.map Fact.id)).filter fun f => config.high_importance_min.le (.num f.importance_score)) r.high_importance
  due : Top (fun f => OrderDual.toDual f.valid_from) config.due_cap
    ((t.remaining scope_ids (r.pinned.map Fact.id ++ r.high_importance.map Fact.id)).filter (Fact.is_temporally_due now)) r.due
  recent : Top Fact.t_created config.recent_cap
    (t.remaining scope_ids (r.pinned.map Fact.id ++ r.high_importance.map Fact.id ++ r.due.map Fact.id)) r.recent

/-- The ids of the two tiers that go by importance. -/
def ResumeScans.earlier (scans : ResumeScans) (config : ResumeConfig) (scope_ids : List Int) (t : Tables) : List FactId :=
  let pinned := (FactStore.pinnedRows scans.pinned [] config.pinned_cap t).map Fact.id
  pinned ++ (FactStore.importantRows scans.high_importance scope_ids config.high_importance_min config.high_importance_cap pinned t).map Fact.id

/-- The texts of the times put no fact out of its place: a due fact that they do not
    call due comes behind enough others, and none is created beyond the year 9999. -/
structure ResumeScans.TextsAgree (scans : ResumeScans) (config : ResumeConfig) (now : DateTime) (scope_ids : List Int) (t : Tables) : Prop where
  due : ∀ f ∈ t.remaining scope_ids (scans.earlier config scope_ids t), f.is_temporally_due now = true → FactStore.dueByText now f = false →
    config.due_cap ≤ (t.remaining scope_ids (scans.earlier config scope_ids t)).countP fun g =>
      FactStore.dueByText now g && decide (g.valid_from ≤ f.valid_from)
  created : ∀ f ∈ t.remaining scope_ids [], f.t_created.year ≤ 9999

section tiers
variable {scope_ids : List Int} {exclude : List FactId} {t : Tables}

theorem remaining_nodup : (t.remaining scope_ids exclude).Nodup := t.activeFacts_nodup.filter _

theorem mem_remaining {f : Fact} : f ∈ t.remaining scope_ids exclude ↔
    f ∈ t.remaining scope_ids [] ∧ f.id ∉ exclude := by
  simp only [Tables.remaining,List.mem_filter,Bool.and_eq_true,Bool.not_eq_true',List.contains_nil]
  simp only [← Bool.not_eq_true,List.contains_iff_mem]
  tauto

theorem mem_facts_of_remaining {f : Fact} (member : f ∈ t.remaining scope_ids exclude) : f ∈ t.facts.rows :=
  (List.mem_filter.mp (List.mem_filter.mp member).1).1

theorem remaining_eq (scopes : scope_ids ≠ []) (q : Fact → Bool) : (t.remaining scope_ids exclude).filter q =
    t.facts.rows.filter fun f => f.t_expired.isNone && q f && FactStore.inScopes scope_ids f && !exclude.contains f.id := by
  have some_scope : scope_ids.isEmpty = false := by simpa using scopes
  rw [Tables.remaining,Tables.activeFacts,List.filter_filter,List.filter_filter]
  refine List.filter_congr fun f _ => ?_
  rw [FactStore.inScopes,some_scope,Bool.false_or]
  ac_rfl

variable {scans : ResumeScans} {config : ResumeConfig} {now : DateTime}

theorem nodup_of_scan {σ : Type} [LinearOrder σ] {key : Fact → σ} {rows : Shuffle Fact} {p : Fact → Bool} {limit : Nat} :
    (((descending key ((rows.order t.facts.rows).filter p)).take limit).map Fact.id).Nodup := by
  have ids : (((descending key ((rows.order t.facts.rows).filter p))).map Fact.id).Perm ((t.facts.rows.filter p).map Fact.id) :=
    ((descending_perm key _).trans scan_perm).map Fact.id
  have unique : ((t.facts.rows.filter p).map Fact.id).Nodup := t.facts.keys_nodup.sublist (List.filter_sublist.map Fact.id)
  exact (ids.nodup_iff.mpr unique).sublist ((List.take_sublist limit _).map Fact.id)

/-- Facts outside the ids already seen add to them without a repetition. -/
theorem nodup_seen_append {seen : List FactId} {found : List Fact} (before : seen.Nodup) (unique : (found.map Fact.id).Nodup)
    (fresh : ∀ f ∈ found, seen.contains f.id = false) : (seen ++ found.map Fact.id).Nodup := by
  refine List.nodup_append.mpr ⟨before,unique,fun id old id' listed same => ?_⟩
  obtain ⟨f,member,rfl⟩ := List.mem_map.mp listed
  have missing := fresh f member
  rw [← same,List.contains_iff_mem.mpr old] at missing
  cases missing

/-- No fact is in two tiers, for each query leaves out what the queries before it found. -/
theorem rows_distinct : ((scans.rows config now scope_ids t).facts.map Fact.id).Nodup := by
  simp only [ResumeContext.facts,ResumeScans.rows,List.map_append]
  refine nodup_seen_append (nodup_seen_append (nodup_seen_append nodup_of_scan nodup_of_scan ?_) nodup_of_scan ?_) nodup_of_scan ?_
  · intro f listed
    have passed := (mem_of_scan listed).2
    simp only [Bool.and_eq_true,Bool.not_eq_true'] at passed
    exact passed.1.2
  · intro f listed
    have passed := (mem_of_scan listed).2
    simp only [Bool.and_eq_true,Bool.not_eq_true'] at passed
    exact passed.2
  · intro f listed
    have passed := (mem_of_scan listed).2
    simp only [Bool.and_eq_true,Bool.not_eq_true'] at passed
    exact passed.2

theorem pinned_top (small : t.facts.rows.length ≤ I64_MAX) {rows : Shuffle Fact} {cap : Nat} :
    Top Fact.importance_score cap (t.activeFacts.filter Fact.is_pinned) (FactStore.pinnedRows rows [] cap t) := by
  have same : t.activeFacts.filter Fact.is_pinned =
      t.facts.rows.filter fun f => f.t_expired.isNone && f.is_pinned && FactStore.inScopes [] f := by
    rw [Tables.activeFacts,List.filter_filter]
    refine List.filter_congr fun f _ => ?_
    simp [FactStore.inScopes,Bool.and_comm]
  rw [same]
  exact top_scan small

theorem important_top (small : t.facts.rows.length ≤ I64_MAX) (scopes : scope_ids ≠ []) {rows : Shuffle Fact} {min_score : F64} {cap : Nat} :
    Top Fact.importance_score cap ((t.remaining scope_ids exclude).filter fun f => min_score.le (.num f.importance_score))
      (FactStore.importantRows rows scope_ids min_score cap exclude t) := by
  have same : (t.remaining scope_ids exclude).filter (fun f => min_score.le (.num f.importance_score)) =
      t.facts.rows.filter fun f =>
        f.t_expired.isNone && min_score.le (.num f.importance_score) && !exclude.contains f.id && FactStore.inScopes scope_ids f := by
    rw [remaining_eq scopes]
    exact List.filter_congr fun f _ => by ac_rfl
  rw [same]
  exact top_scan small

theorem due_top_iff (rows : Shuffle Fact) (exclude : List FactId) (small : t.facts.rows.length ≤ I64_MAX) (scopes : scope_ids ≠ [])
    {cap : Nat} (room : 0 < cap) (regular : ∀ f ∈ t.facts.rows, f.Regular) (leaps : Leaps now)
    (legible : ∀ f ∈ FactStore.dueRows rows now scope_ids exclude cap t, ∀ tv ∈ f.t_valid, tv.Readable) :
    Top (fun f => OrderDual.toDual f.valid_from) cap ((t.remaining scope_ids exclude).filter (Fact.is_temporally_due now))
        (FactStore.dueRows rows now scope_ids exclude cap t) ↔
      ∀ f ∈ t.remaining scope_ids exclude, f.is_temporally_due now = true → FactStore.dueByText now f = false →
        cap ≤ (t.remaining scope_ids exclude).countP fun g => FactStore.dueByText now g && decide (g.valid_from ≤ f.valid_from) := by
  have listing : FactStore.dueRows rows now scope_ids exclude cap t = (descending (fun f => OrderDual.toDual (FactStore.validText f))
      ((rows.order t.facts.rows).filter fun f =>
        f.t_expired.isNone && FactStore.dueByText now f && FactStore.inScopes scope_ids f && !exclude.contains f.id)).take cap :=
    take_limit_i64 small ((descending_perm _ _).trans scan_perm)
  rw [listing] at legible ⊢
  refine top_due_iff remaining_nodup ?_ (descending_sorted (fun f => OrderDual.toDual (FactStore.validText f)) _) room
    (fun f member => regular f (mem_facts_of_remaining member)) leaps legible
  rw [remaining_eq scopes]
  exact (descending_perm _ _).trans scan_perm

theorem recent_top_iff (rows : Shuffle Fact) (exclude : List FactId) (small : t.facts.rows.length ≤ I64_MAX) {cap : Nat} (room : 0 < cap)
    (regular : ∀ f ∈ t.facts.rows, f.Regular) (legible : ∀ f ∈ FactStore.recentRows rows scope_ids cap exclude t, f.t_created.Readable) :
    Top Fact.t_created cap (t.remaining scope_ids exclude) (FactStore.recentRows rows scope_ids cap exclude t) ↔
      ∀ f ∈ t.remaining scope_ids exclude, f.t_created.year ≤ 9999 := by
  have listing : FactStore.recentRows rows scope_ids cap exclude t = (descending (fun f => f.t_created.to_rfc3339)
      ((rows.order t.facts.rows).filter fun f =>
        f.t_expired.isNone && scope_ids.contains f.scope_id && !exclude.contains f.id)).take cap :=
    take_limit_i64 small ((descending_perm _ _).trans scan_perm)
  rw [listing] at legible ⊢
  refine top_recent_iff remaining_nodup ?_ (descending_sorted _ _) room (fun f member => regular f (mem_facts_of_remaining member)) legible
  have same : t.remaining scope_ids exclude =
      t.facts.rows.filter fun f => f.t_expired.isNone && scope_ids.contains f.scope_id && !exclude.contains f.id := by
    rw [Tables.remaining,Tables.activeFacts,List.filter_filter]
    exact List.filter_congr fun f _ => by ac_rfl
  rw [same]
  exact (descending_perm _ _).trans scan_perm

/-- The rows of the four queries are the four tiers exactly when the texts agree. -/
theorem tiers_rows_iff {self : SqliteBackend} (small : t.facts.rows.length ≤ I64_MAX) (scopes : scope_ids ≠ [])
    (valid : config.validate self = .ok ()) (regular : ∀ f ∈ t.facts.rows, f.Regular) (leaps : Leaps now)
    (legible : ∀ f ∈ (scans.rows config now scope_ids t).facts, f.Readable self.embed_dim) :
    Tiers config now scope_ids t (scans.rows config now scope_ids t) ↔ scans.TextsAgree config now scope_ids t := by
  obtain ⟨_,_,due_room,recent_room⟩ := ResumeConfig.caps_pos valid
  have readable : ∀ f ∈ (scans.rows config now scope_ids t).facts, f ∈ t.facts.rows ∧ f.Readable self.embed_dim := by
    intro f listed
    refine ⟨?_,legible f listed⟩
    simp only [ResumeContext.facts,List.mem_append] at listed
    rcases listed with ((listed | listed) | listed) | listed <;> exact (mem_of_scan listed).1
  simp only [ResumeContext.facts,List.mem_append] at legible
  have due := due_top_iff scans.due (scans.earlier config scope_ids t) small scopes due_room regular leaps
    fun f listed => (legible f (.inl (.inr listed))).2.2.2.2.1
  have recent := recent_top_iff scans.recent (scans.earlier config scope_ids t ++ (scans.rows config now scope_ids t).due.map Fact.id) small
    recent_room regular fun f listed => (legible f (.inr listed)).2.1
  constructor
  · intro tiers
    refine ⟨due.mp tiers.due,fun f member => ?_⟩
    by_cases seen : f.id ∈ scans.earlier config scope_ids t ++ (scans.rows config now scope_ids t).due.map Fact.id
    · -- a fact of an earlier tier has been read
      have found : f.id ∈ (scans.rows config now scope_ids t).facts.map Fact.id := by
        rw [ResumeContext.facts,List.map_append,List.map_append,List.map_append]
        exact List.mem_append_left _ seen
      obtain ⟨g,listed,same⟩ := List.mem_map.mp found
      obtain ⟨row,read⟩ := readable g listed
      obtain rfl : g = f := t.facts.key_unique row (mem_facts_of_remaining member) same
      exact read.2.1.2
    · exact recent.mp tiers.recent f (mem_remaining.mpr ⟨member,seen⟩)
  · intro agree
    exact ⟨rows_distinct,pinned_top small,important_top small scopes,due.mpr agree.due,
      recent.mpr fun f member => agree.created f (mem_remaining.mp member).1⟩

end tiers

end MemoryEngine
