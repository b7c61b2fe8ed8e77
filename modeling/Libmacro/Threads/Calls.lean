import Libmacro.Threads.Program

/-! # Which calls a run contains

The properties of `macro.cpp` are about clients that make certain calls on a macro only.
`onlyCalls m K direct` is that condition on the steps of a run, and `only_of_run` says that then
no thread of any other kind is ever met. -/

namespace Libmacro

open Interleaving

/-- The kinds of client calls, told apart by what they may write to the macro. -/
inductive CallKind where
  /-- `start`, `act`, `receive`. -/
  | start
  /-- `setInterruptor`, `setEnabled`, `interrupt`. -/
  | setInterruptor
  /-- A guarded setter. -/
  | setter
  /-- `setThreadMax`. -/
  | setThreadMax
  /-- `setContext`. -/
  | setContext
  /-- `Libmacro::setGlobalThreadLimit`. -/
  | setGlobalThreadLimit
  /-- `copy`. -/
  | copy
  /-- The destructor. -/
  | destroy
  deriving DecidableEq, Repr

/-- The kind of a call that has not returned; it stays the same until then. -/
def CallPc.kind : CallPc → Option CallKind
  | start _ => some .start
  | checkInterruptor _ | setInterruptor _ _ => some .setInterruptor
  | checkName _ | block _ => some .setter
  | checkThreadMax _ | storeThreadMax _ | limit _ => some .setThreadMax
  | setContext _ => some .setContext
  | setGlobalThreadLimit _ => some .setGlobalThreadLimit
  | copy _ _ => some .copy
  | destroy _ => some .destroy
  | returned => none

/-- A call keeps its kind until it returns. -/
theorem CallPc.Step.kind {mem : Memory} {pool : List Thread} {m : MacroId} {i : ThreadId}
    {p p' : CallPc} {a : Access} {ts : List Thread} {ev : List Event}
    (h : p.Step mem pool m i a p' ts ev) : p'.kind = p.kind ∨ p'.kind = none := by
  cases h <;> first | exact .inl rfl | exact .inr rfl

/-- On macro `m` the thread is none but a call of a kind in `K`, a reset thread or a worker, the
latter called by a client only if `direct`. -/
def Thread.only (m : MacroId) (K : CallKind → Bool) (direct : Bool) : Thread → Bool
  | worker m' origin _ => m' != m || origin.isSome || direct
  | reset _ _ _ => true
  | call m' pc => m' != m || pc.kind.all K

/-- The clients' calls on macro `m` are of a kind in `K`, or direct runs if `direct`. -/
def onlyCalls (m : MacroId) (K : CallKind → Bool) (direct : Bool) : Label Thread Bool → Bool
  | .call t => t.only m K direct
  | .step _ _ => true

section

variable {m : MacroId} {K : CallKind → Bool} {direct : Bool}

/-- A call of the macro that has not returned has its kind in `K`. -/
theorem Thread.kind_of_only {pc : CallPc} {kind : CallKind}
    (h : (call m pc).only m K direct = true) (hk : pc.kind = some kind) : K kind = true := by
  simpa [only, hk] using h

/-- A step keeps the thread of an allowed kind, and creates none but such. -/
theorem Thread.Step.only {c : Config Memory Thread} {i : ThreadId} {t : Thread} {mv : Move}
    (h : t.Step c i mv) (ht : t.only m K direct = true) :
    mv.next.only m K direct = true ∧ ∀ u ∈ mv.spawned, u.only m K direct = true := by
  constructor
  · cases h with
    | worker h => exact ht
    | reset h => rfl
    | call h =>
      rcases h.kind with hkind | hkind <;> simp_all [Thread.only]
  · intro u hu
    rcases h.of_mem_spawned hu with rfl | rfl
    · simp [Thread.only]
    · rfl

/-- **No other thread of the macro is met** in a run with such calls only. -/
theorem only_of_run {allowed : Config Memory Thread → Label Thread Bool → Prop}
    {c₀ c : Config Memory Thread} {tr : List Event}
    (hallowed : ∀ c l, allowed c l → onlyCalls m K direct l = true)
    (hinit : ∀ t ∈ c₀.pool, t.only m K direct = true) (h : program.Run allowed c₀ tr c) :
    ∀ t ∈ c.pool, t.only m K direct = true := by
  refine Machine.Run.forall_mem hinit (fun c t _ ok _ => hallowed c _ ok) ?_ h
  intro c i k t e ht _ _ he
  obtain ⟨a, hs, -⟩ := step_of_program_move he
  exact hs.only ht

end

end Libmacro
