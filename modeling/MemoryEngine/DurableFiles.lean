import Mathlib.Logic.Function.Basic
import Mathlib.Data.List.Basic

/-! A disk that can crash. A file has what was written and what is synced of it; a
directory has its names and the names it had when it was synced last. A crash
loses what is not synced, and of each name that changed since the directory was
synced either the old or the new file may be found. -/

namespace MemoryEngine.DurableFiles

universe u v

/-- Files are numbered; a name leads to a file. -/
structure Disk (N : Type u) (β : Type v) where
  written : Nat → List β
  synced : Nat → List β
  entries : N → Option Nat
  durable : N → Option Nat

inductive Command (N : Type u) (β : Type v) where
  | create (name : N) (file : Nat)
  | append (file : Nat) (bytes : List β)
  | sync (file : Nat)
  | rename (source target : N)
  | remove (name : N)
  | syncDir

/-- The command is about this file and these names only. -/
def Command.About {N : Type u} {β : Type v} (file : Nat) (names : List N) : Command N β → Prop
  | create name number => name ∈ names ∧ number = file
  | append number _ => number = file
  | sync number => number = file
  | rename source target => source ∈ names ∧ target ∈ names
  | remove name => name ∈ names
  | syncDir => False

namespace Disk
variable {N : Type u} {β : Type v}

def read (d : Disk N β) (name : N) : Option (List β) := (d.entries name).map d.written

/-- What a crash leaves. -/
structure Survives (d d' : Disk N β) : Prop where
  written : d'.written = d.synced
  synced : d'.synced = d.synced
  entries : ∀ name, d'.entries name = d.entries name ∨ d'.entries name = d.durable name
  durable : d'.durable = d'.entries

/-- What the name may lead to after a crash. -/
def Leads (d : Disk N β) (name : N) (file : Option Nat) : Prop := file = d.entries name ∨ file = d.durable name

/-- Whatever a crash leaves, the file of the name is there and has the property. -/
def Keeps (d : Disk N β) (name : N) (P : List β → Prop) : Prop := ∀ file, d.Leads name file → ∃ number, file = some number ∧ P (d.synced number)

/-- No name leads to the file. -/
def Unused (d : Disk N β) (file : Nat) : Prop := ∀ name, ¬ d.Leads name (some file)

/-- The disk after a crash that left for each name the chosen file. -/
def left (d : Disk N β) (choice : N → Option Nat) : Disk N β := ⟨d.synced,d.synced,choice,choice⟩

/-- Apart from one file and some names, a crash can leave the same as before. -/
structure Spares (file : Nat) (names : List N) (d d' : Disk N β) : Prop where
  synced : ∀ number ≠ file, d'.synced number = d.synced number
  leads : ∀ name ∉ names, ∀ number, d'.Leads name number ↔ d.Leads name number

theorem Spares.refl (file : Nat) (names : List N) (d : Disk N β) : Spares file names d d := ⟨fun _ _ => rfl,fun _ _ _ => Iff.rfl⟩

theorem Spares.trans {file : Nat} {names : List N} {d m d' : Disk N β} (first : Spares file names d m) (second : Spares file names m d') :
    Spares file names d d' where
  synced number other := (second.synced number other).trans (first.synced number other)
  leads name other number := (second.leads name other number).trans (first.leads name other number)

/-- Fewer names are spared when more may change. -/
theorem Spares.mono {file : Nat} {names more : List N} {d d' : Disk N β} (spares : Spares file names d d') (within : names ⊆ more) :
    Spares file more d d' := ⟨spares.synced,fun name other => spares.leads name fun member => other (within member)⟩

/-- Names that stay as they are. -/
theorem Spares.of_entries {file : Nat} {names : List N} {d d' : Disk N β} (synced : ∀ number ≠ file, d'.synced number = d.synced number)
    (entries : ∀ name ∉ names, d'.entries name = d.entries name) (durable : d'.durable = d.durable) : Spares file names d d' := by
  refine ⟨synced,fun name other number => ?_⟩
  rw [Leads,Leads,entries name other,durable]

section commands
variable [DecidableEq N]

def apply (d : Disk N β) : Command N β → Disk N β
  | .create name file => { d with
      written := Function.update d.written file [], synced := Function.update d.synced file [],
      entries := Function.update d.entries name (some file) }
  | .append file bytes => { d with written := Function.update d.written file (d.written file ++ bytes) }
  | .sync file => { d with synced := Function.update d.synced file (d.written file) }
  | .rename source target => { d with entries := Function.update (Function.update d.entries target (d.entries source)) source none }
  | .remove name => { d with entries := Function.update d.entries name none }
  | .syncDir => { d with durable := d.entries }

theorem spares_apply {file : Nat} {names : List N} (d : Disk N β) (command : Command N β) (about : command.About file names) :
    Spares file names d (d.apply command) := by
  cases command with
  | create name number =>
    obtain ⟨named,rfl⟩ := about
    refine .of_entries (fun other apart => Function.update_of_ne apart _ _) (fun other apart => Function.update_of_ne ?_ _ _) rfl
    rintro rfl
    exact apart named
  | append number bytes => exact .of_entries (fun _ _ => rfl) (fun _ _ => rfl) rfl
  | sync number =>
    have same : number = file := about
    subst same
    exact .of_entries (fun other apart => Function.update_of_ne apart _ _) (fun _ _ => rfl) rfl
  | rename source target =>
    refine .of_entries (fun _ _ => rfl) (fun other apart => ?_) rfl
    have away : other ≠ source ∧ other ≠ target := by
      constructor
      · rintro rfl
        exact apart about.1
      · rintro rfl
        exact apart about.2
    change Function.update (Function.update d.entries target (d.entries source)) source none other = _
    rw [Function.update_of_ne away.1,Function.update_of_ne away.2]
  | remove name =>
    refine .of_entries (fun _ _ => rfl) (fun other apart => Function.update_of_ne ?_ _ _) rfl
    rintro rfl
    exact apart about
  | syncDir => cases about

end commands
end Disk
end MemoryEngine.DurableFiles
