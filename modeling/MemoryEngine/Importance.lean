import MemoryEngine.PinRace
import MemoryEngine.GraphMirror

/-! The score of a fact and the state a sweep leaves: every active fact scored, the
facts below the threshold expired with their edges, and nothing else touched. -/

namespace MemoryEngine
open Time KeyedTable Transaction

namespace Time.DateTime

/-- The number of a day in the proleptic Gregorian calendar, counted in years that
    begin in March. -/
def day_number (t : DateTime) : Int :=
  let year := if t.month ≤ 2 then t.year - 1 else t.year
  365 * year + year / 4 - year / 100 + year / 400 + ((153 * ((t.month + 9) % 12) + 2) / 5 + t.day : Nat)

/-- The nanoseconds since another instant. A leap second between two times of the day counts. -/
def nanoseconds_since (now before : DateTime) : Int :=
  let leap : Int := if before.secs < now.secs ∧ 1000000000 ≤ before.frac then 1 else
    if now.secs < before.secs ∧ 1000000000 ≤ now.frac then -1 else 0
  ((now.day_number - before.day_number) * 86400 + now.secs - before.secs + leap) * 1000000000 + now.frac - before.frac

/-- The whole seconds since another instant, cut off towards zero. -/
def num_seconds_since (now before : DateTime) : Int := (nanoseconds_since now before).tdiv 1000000000

end Time.DateTime

/-- The transcendental functions of the platform. -/
structure Libm where
  exp2 : F64 → F64
  ln : F64 → F64
  ln_1p : F64 → F64

namespace Forget

def FREQUENCY_NORMALIZATION_ARG : F64 := F64.ofRat 101

def CONNECTIVITY_NORMALIZATION_ARG : F64 := F64.ofRat 51

section score
variable (libm : Libm)

def ebbinghaus_decay (age_days half_life : F64) : F64 := libm.exp2 (age_days.neg.div half_life)

/-- A logarithm of a count against that of a ceiling, at most one. -/
def normalized (count : Int) (ceiling : F64) : F64 :=
  ((libm.ln_1p (F64.ofInt count)).div (libm.ln ceiling)).min (F64.ofRat 1)

def recency (fact : FactScoringRow) (now : DateTime) (policy : ForgetPolicy) : F64 :=
  if policy.is_decay_exempt fact.fact_type then F64.ofRat 1 else
  let half_life := (policy.half_life_overrides.lookup fact.fact_type).getD policy.half_life_days
  let age_days := (F64.ofInt (now.num_seconds_since fact.last_accessed)).div (F64.ofRat 86400)
  ebbinghaus_decay libm (age_days.max (F64.ofRat 0)) half_life

def compute_importance (fact : FactScoringRow) (graph_degree : Nat) (now : DateTime) (policy : ForgetPolicy) : F64 :=
  let frequency := normalized libm fact.access_count FREQUENCY_NORMALIZATION_ARG
  let connectivity := normalized libm graph_degree CONNECTIVITY_NORMALIZATION_ARG
  (policy.recency_weight.mul_add (recency libm fact now policy) (policy.frequency_weight.mul frequency)).add
    (policy.graph_degree_weight.mul_add connectivity (policy.base_importance_weight.mul (.num fact.base_importance)))

end score
end Forget

/-- The row with a score in its column. -/
def Fact.rescored (score : F64) (f : Fact) : Fact :=
  match score with
  | .num v => { f with importance_score := v }
  | .nan => f

theorem Fact.rescored_id (score : F64) (f : Fact) : (f.rescored score).id = f.id := by
  cases score <;> rfl

/-- A score below the threshold on a fact that may be forgotten. -/
def ForgetPolicy.forgets (policy : ForgetPolicy) (score : F64) (f : Fact) : Bool :=
  !f.is_pinned && !policy.is_decay_exempt f.fact_type && score.lt policy.min_importance

theorem Fact.expired_key (now : DateTime) (f : Fact) : Row.key { f with t_expired := some now } = Row.key f := rfl

theorem Edge.expired_key (now : DateTime) (e : Edge) : Row.key { e with t_expired := some now } = Row.key e := rfl

/-- What a sweep is for: every active fact gets its score, those to forget expire, and
    with them the active edges that end in one of them. -/
def Tables.swept (t : Tables) (score : Fact → F64) (policy : ForgetPolicy) (now : DateTime) : Tables :=
  { t with
    facts := t.facts.update (fun f => f.t_expired.isNone)
      (fun f => { f.rescored (score f) with t_expired := if policy.forgets (score f) f then some now else none })
      (fun f => f.rescored_id (score f))
    edges := t.edges.update
      (fun e => e.active && t.facts.rows.any fun f => f.t_expired.isNone && policy.forgets (score f) f && EdgeStore.incident f.id e)
      (fun e => { e with t_expired := some now }) (Edge.expired_key now) }

namespace Forget
variable {self : SqliteBackend}

section sweep
variable (value : FactScoringRow → Nat → DateTime → ForgetPolicy → F64) (graph : MemoryGraph) (policy : ForgetPolicy) (now : DateTime)

/-- The score of a row in the graph at hand. -/
def scoreOf (f : Fact) : F64 := value f.scoring (graph.degree f.id) now policy

theorem mem_score {t : Tables} {entry : FactId × F64} : entry ∈ score value graph (t.activeFacts.map Fact.scoring) now policy ↔
    ∃ f ∈ t.activeFacts, entry = (f.id,scoreOf value graph policy now f) := by
  simp only [score,List.map_map,List.mem_map,Function.comp_apply]
  exact exists_congr fun f => and_congr_right fun _ => eq_comm

end sweep
end Forget

namespace Prune
open Forget
variable {ctx : MemoryCtx} {value : FactScoringRow → Nat → DateTime → ForgetPolicy → F64} {policy : ForgetPolicy} {now : DateTime}
  {s : Engine}

end Prune

namespace Prune.Sample
open MemoryEngine.Sample

/-- The functions at the numbers a new fact with no edge or one comes to. -/
def libm : Libm where
  exp2 x := if x = F64.ofRat 0 then F64.ofRat 1 else .nan
  ln x := if x = F64.ofRat 101 then F64.ofRat (5196163759979057 / 2 ^ 50) else
    if x = F64.ofRat 51 then F64.ofRat (8853684227211519 / 2 ^ 51) else .nan
  ln_1p x := if x = F64.ofRat 0 then F64.ofRat 0 else if x = F64.ofRat 1 then F64.ofRat (6243314768165359 / 2 ^ 53) else .nan

/-- The sample engine was opened on its store. -/
theorem mirrored : engine.Mirrored := by
  have ends : Ends facts Db.fresh (fun _ _ => true) = true := by decide +kernel
  obtain ⟨e,t,committed,_⟩ := commits_of_ends ends
  have same : engine = e := by
    unfold engine result
    rw [show facts.run Db.fresh = .ok (e,t) from committed]
  rw [same]
  obtain ⟨_,_,_,rest₁⟩ := commits_bind.mp committed
  obtain ⟨_,_,_,rest₂⟩ := commits_bind.mp rest₁
  obtain ⟨_,_,_,rest₃⟩ := commits_bind.mp rest₂
  obtain ⟨_,_,_,rebuilt⟩ := commits_bind.mp rest₃
  exact (full_rebuild_mirrored rebuilt).2

theorem valid_of_isOk {policy : ForgetPolicy} (passes : policy.validate.isOk = true) : policy.validate = .ok () := by
  cases checked : policy.validate with
  | ok => rfl
  | error e =>
    rw [checked] at passes
    cases passes

end Prune.Sample

end MemoryEngine
