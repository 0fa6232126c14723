import MemoryEngine.Reconstruct

/-! The names of embedding spaces. A name keeps the letters and digits of model and provider
and the dimension, and two identities that agree on these share it. -/

namespace MemoryEngine.Reconstruct
open Transaction EmbeddingSpaces

/-- Model and provider as a slug joins them. -/
def slugged (fp : EmbeddingFingerprint) : List Char := fp.model.toList ++ '_' :: fp.provider.toList

/-- A slug keeps letters and digits and makes one character of all others. -/
def Alike (a b : Char) : Prop := a = b ∨ a.isAlphanum = false ∧ b.isAlphanum = false

instance : DecidableRel Alike := fun a b => inferInstanceAs (Decidable (a = b ∨ a.isAlphanum = false ∧ b.isAlphanum = false))

/-- One dimension, and slugs that agree character by character. The base dimension and the
    element type do not count. -/
def Collide (a b : EmbeddingFingerprint) : Prop := a.dim = b.dim ∧ List.Forall₂ Alike (slugged a) (slugged b)

instance (a b : EmbeddingFingerprint) : Decidable (Collide a b) := inferInstanceAs (Decidable (_ ∧ _))

/-- A space of the identity `b` under the name of `b`, which is also that of `a`, and no
    reconstruction to `a` begins. -/
structure Blocks (b a : EmbeddingFingerprint) (db : Db) : Prop where
  held : ∃ s ∈ db.embedding_spaces, s.fingerprint = b ∧ s.name = space_name_for b ∧ s.name = space_name_for a
  rejected : ∀ u t, ¬ Commits (begin_populating ⟨space_name_for a,a,.Populating⟩) db u t

theorem alike_iff {a b : Char} :
    ((if a.isAlphanum then a else '_') = if b.isAlphanum then b else '_') ↔ Alike a b := by
  have apart : ('_' : Char).isAlphanum = false := by decide
  unfold Alike
  by_cases left : a.isAlphanum = true
  · by_cases right : b.isAlphanum = true
    · simp [left,right]
    · rw [if_pos left,if_neg right]
      constructor
      · rintro rfl
        exact absurd left (by simp [apart])
      · rintro (rfl | ⟨none,_⟩)
        · exact absurd left right
        · exact absurd left (by simp [none])
  · by_cases right : b.isAlphanum = true
    · rw [if_neg left,if_pos right]
      constructor
      · rintro rfl
        exact absurd right (by simp [apart])
      · rintro (rfl | ⟨_,none⟩)
        · exact absurd right left
        · exact absurd right (by simp [none])
    · simp [left,right]

theorem map_slug_iff {xs ys : List Char} :
    (xs.map fun ch => if ch.isAlphanum then ch else '_') = (ys.map fun ch => if ch.isAlphanum then ch else '_') ↔
      List.Forall₂ Alike xs ys := by
  rw [← List.forall₂_eq_eq_eq,List.forall₂_map_left_iff,List.forall₂_map_right_iff]
  constructor
  · exact fun same => same.imp fun a b equal => alike_iff.mp equal
  · exact fun same => same.imp fun a b alike => alike_iff.mpr alike

private theorem cut_shorter {between digits digits' : List Char} (absent : '_' ∉ digits)
    (same : '_' :: digits = between ++ '_' :: digits') : between = [] ∧ digits = digits' := by
  cases between with
  | nil => exact ⟨rfl,(List.cons.inj same).2⟩
  | cons c rest =>
    rw [(List.cons.inj same).2] at absent
    exact absurd (List.mem_append_right rest List.mem_cons_self) absent

/-- What follows the last underscore is told apart from what comes before it. -/
theorem cut_underscore {xs ys digits digits' : List Char} (left : '_' ∉ digits) (right : '_' ∉ digits') :
    xs ++ '_' :: digits = ys ++ '_' :: digits' ↔ xs = ys ∧ digits = digits' := by
  constructor
  · intro same
    rcases List.append_eq_append_iff.mp same with ⟨between,rfl,rest⟩ | ⟨between,rfl,rest⟩
    · obtain ⟨rfl,rfl⟩ := cut_shorter left rest
      exact ⟨(List.append_nil _).symm,rfl⟩
    · obtain ⟨rfl,rfl⟩ := cut_shorter right rest
      exact ⟨List.append_nil _,rfl⟩
  · rintro ⟨rfl,rfl⟩
    rfl

theorem toDigits_inj {m n : Nat} (same : Nat.toDigits 10 m = Nat.toDigits 10 n) : m = n := by
  rw [← Nat.ofDigitChars_ten_toDigits (n := m),same,Nat.ofDigitChars_ten_toDigits]

theorem space_name_for_toList (fp : EmbeddingFingerprint) : (space_name_for fp).toList =
    ((slugged fp).map fun ch => if ch.isAlphanum then ch else '_') ++ '_' :: Nat.toDigits 10 fp.dim := by
  have text : (toString fp.dim).toList = Nat.toDigits 10 fp.dim := Nat.toList_repr
  have bar : (if ('_' : Char).isAlphanum then '_' else '_') = '_' := by decide
  rw [space_name_for,String.toList_append,String.toList_ofList,text,slugged,List.map_append,List.map_singleton,bar,List.append_assoc,
    List.singleton_append]

/-- Names agree exactly on identities that collide. -/
theorem space_name_for_eq_iff {a b : EmbeddingFingerprint} : space_name_for a = space_name_for b ↔ Collide a b := by
  rw [← String.toList_inj,space_name_for_toList,space_name_for_toList,
    cut_underscore Nat.underscore_not_in_toDigits Nat.underscore_not_in_toDigits,map_slug_iff,Collide,and_comm]
  exact and_congr_left fun _ => ⟨toDigits_inj,congrArg _⟩

/-- A name that is taken opens again only for the identity that is populating it. -/
theorem commits_begin_taken {db t : Db} {space held : EmbeddingSpace} {u : Unit} (taken : db.findSpace space.name = some held)
    (committed : Commits (begin_populating space) db u t) : held.fingerprint = space.fingerprint := by
  obtain ⟨found,m,named,rest⟩ := commits_bind.mp committed
  obtain ⟨rfl,rfl⟩ := commits_find_by_name.mp named
  rw [taken] at rest
  exact (commits_require.mp rest).1.2

/-- Wherever a colliding identity has its space, the reconstruction is turned away. -/
theorem blocks_of_collide {a b : EmbeddingFingerprint} (differ : a ≠ b) (collide : Collide a b) {db : Db} {s : EmbeddingSpace}
    (held : s ∈ db.embedding_spaces) (identity : s.fingerprint = b) (named : s.name = space_name_for b) : Blocks b a db := by
  have shared : s.name = space_name_for a := named.trans (space_name_for_eq_iff.mpr collide).symm
  refine ⟨⟨s,held,identity,named,shared⟩,fun u t committed => ?_⟩
  have same := commits_begin_taken (findSpace_eq_some db |>.mpr ⟨held,shared⟩) committed
  exact differ (same.symm.trans identity)

/-- Identities have names of their own, and none stands in the way of the other, exactly when
    they differ in their dimension or in a character that a slug keeps. -/
theorem distinct_names_iff (a b : EmbeddingFingerprint) :
    (space_name_for a ≠ space_name_for b ∧ ∀ db, ¬ Blocks b a db) ↔ ¬ Collide a b := by
  constructor
  · exact fun apart collide => apart.1 (space_name_for_eq_iff.mpr collide)
  · intro apart
    refine ⟨fun same => apart (space_name_for_eq_iff.mp same),fun db blocked => ?_⟩
    obtain ⟨s,_,_,named,shared⟩ := blocked.held
    exact apart (space_name_for_eq_iff.mp (shared.symm.trans named))

namespace Sample

def slashed : EmbeddingFingerprint := ⟨"org/embed","local",3,none,"f32"⟩

/-- The same letters, with the separators elsewhere. -/
def dashed : EmbeddingFingerprint := ⟨"org","embed-local",3,none,"f32"⟩

/-- A store that a reconstruction to the first identity has promoted. -/
def promoted : Db :=
  { Db.fresh with
    embedding_spaces := [⟨space_name_for slashed,slashed,.Active⟩]
    unique := by decide
    foreign := by decide }

end Sample

/-- Two models of one dimension, the second turned away by the space of the first. -/
theorem shared_name : Sample.dashed ≠ Sample.slashed ∧ space_name_for Sample.dashed = space_name_for Sample.slashed ∧
    Blocks Sample.slashed Sample.dashed Sample.promoted := by
  have differ : Sample.dashed ≠ Sample.slashed := by decide
  have collide : Collide Sample.dashed Sample.slashed := by decide
  exact ⟨differ,space_name_for_eq_iff.mpr collide,blocks_of_collide differ collide List.mem_cons_self rfl rfl⟩

end MemoryEngine.Reconstruct
