import Libmacro.ExactRegistration
import Libmacro.Threads.Program

/-! # Calls with nothing else going on

The configuration calls of an idle macro are modelled twice: as functions of the memory
(`ConfigCall.run`) and as steps of a thread among others (`CallPc.move`). `ConfigCall.reaches_run`:
a call that no other thread interferes with takes its steps to the memory that the function
computes. -/

namespace Libmacro

open Interleaving

/-- Thread `i` alone can bring the program from `c` to `c'`. -/
def Reaches (i : ThreadId) (c c' : Config Memory Thread) : Prop :=
  ∃ tr, program.Run (fun _ l => ∃ k, l = .step i k) c tr c'

/-- The steps of one thread compose, as long as no other moves in between. -/
theorem Reaches.trans {i : ThreadId} {c c' c'' : Config Memory Thread} (h : Reaches i c c')
    (h' : Reaches i c' c'') : Reaches i c c'' := by
  obtain ⟨tr, h⟩ := h
  obtain ⟨tr', h'⟩ := h'
  exact ⟨tr ++ tr', h.trans h'⟩

section

variable {mem mem' : Memory} {pool : List Thread} {i : ThreadId} {m : MacroId} {val : Interrupt}

/-- One step of thread `i`, in a pool in which it stands at a given point. -/
theorem reaches_of_move {t : Thread} {mv : Move} {k : Bool} (hi : i < pool.length)
    (hm : t.move ⟨mem, pool.set i t⟩ i k = some mv)
    (ha : mv.access.apply t.macroId mem = some mem') :
    Reaches i ⟨mem, pool.set i t⟩ ⟨mem', pool.set i mv.next ++ mv.spawned⟩ := by
  refine ⟨mv.events, Machine.Run.single ⟨k, rfl⟩ (Machine.step_step_iff.mpr ?_)⟩
  refine ⟨t, ⟨mem', mv.next, mv.spawned, mv.events⟩, by simp [hi], ?_, rfl, by simp⟩
  simp only [program, hm, Option.bind_some, ha, Option.map_some]

/-- A move of thread `i` that creates no thread is reached: the thread takes its place in the pool,
with the memory after its access. -/
theorem reaches_of_move_nil {t u : Thread} {a : Access} {ev : List Event} {k : Bool}
    (hi : i < pool.length) (hm : t.move ⟨mem, pool.set i t⟩ i k = some ⟨a, u, [], ev⟩)
    (ha : a.apply t.macroId mem = some mem') :
    Reaches i ⟨mem, pool.set i t⟩ ⟨mem', pool.set i u⟩ := by
  simpa using reaches_of_move hi hm ha

/-- While the mutex is free, every access has the effect that it has on its own, guarded or not. -/
theorem Access.apply_of_unlocked {a : Access} (hfree : (mem.macros m).locked = false)
    (h : a.perform m mem = some mem') : a.apply m mem = some mem' := by
  rw [apply, if_neg (by simp [hfree]), h]

/-- Every edge of `setInterruptor` is a move of it, for some choice of the outcome. -/
theorem SetPc.Step.exists_move {mac : Macro} {p : SetPc val} {q : Option (SetPc val)} {a : Access}
    {ts : List Thread} {ev : List Event} (h : p.Step m mac i a q ts ev)
    (wrap : SetPc val → Thread) (ret : Thread) : ∃ k,
      p.move m mac i k (fun p a => ⟨a, wrap p, [], []⟩) (fun a => ⟨a, ret, [], []⟩) =
        ⟨a, q.elim ret wrap, ts, ev⟩ := by
  cases h with
  | readPrev => exact ⟨true, rfl⟩
  | differs h | same h => exact ⟨true, by simp [SetPc.move, h]⟩
  | storeApply h => exact ⟨true, by simp [SetPc.move, h]⟩
  | storeReset h hs => exact ⟨true, by simp only [SetPc.move, if_neg h, dif_pos hs]; simp⟩
  | storeDone h hs =>
    have hno : ¬ (mac.storeInterruptor val).2 = true := Bool.eq_false_iff.mp hs
    exact ⟨true, by simp only [SetPc.move, if_neg h, dif_neg hno, List.append_nil]; rfl⟩
  | applyReset | applyDone => exact ⟨true, rfl⟩
  | spawnReset => exact ⟨true, rfl⟩
  | spawnFails => exact ⟨false, rfl⟩

/-- The pool, with thread `i` at a point of `setInterruptor(val)` on macro `m`. -/
abbrev setting (pool : List Thread) (i : ThreadId) (m : MacroId) (p : SetPc val) : List Thread :=
  pool.set i (.call m (.setInterruptor val p))

/-- An edge of `setInterruptor` that stays inside it takes the calling thread to the next point. -/
theorem reaches_of_edge {p p' : SetPc val} {a : Access} {ev : List Event} (hi : i < pool.length)
    (h : p.Step m (mem.macros m) i a (some p') [] ev) (ha : a.apply m mem = some mem') :
    Reaches i ⟨mem, setting pool i m p⟩ ⟨mem', setting pool i m p'⟩ := by
  obtain ⟨k, hmove⟩ := h.exists_move (fun p => .call m (.setInterruptor val p)) (.call m .returned)
  exact reaches_of_move_nil (t := .call m (.setInterruptor val p)) hi (congrArg some hmove) ha

/-- An edge of `setInterruptor` that returns from it ends the call, and adds what it created to the
pool. -/
theorem reaches_of_return {p : SetPc val} {a : Access} {ts : List Thread} {ev : List Event}
    (hi : i < pool.length) (h : p.Step m (mem.macros m) i a none ts ev)
    (ha : a.apply m mem = some mem') :
    Reaches i ⟨mem, setting pool i m p⟩ ⟨mem', pool.set i (.call m .returned) ++ ts⟩ := by
  obtain ⟨k, hmove⟩ := h.exists_move (fun p => .call m (.setInterruptor val p)) (.call m .returned)
  exact reaches_of_move (t := .call m (.setInterruptor val p)) hi (congrArg some hmove) ha

/-- The threads that `setInterruptor` leaves behind. -/
abbrev resetThreads (m : MacroId) (i : ThreadId) (spawnResetThread : Bool) : List Thread :=
  if spawnResetThread then [.reset m i .readPrev] else []

/-- `setInterruptor` from its `applyDispatch()` on: the block, and the reset thread if there is to
be one. -/
theorem reaches_apply {spawnResetThread : Bool} (hi : i < pool.length)
    (hfree : (mem.macros m).locked = false) (hs : spawnResetThread = true → val = .interruptAll)
    (h : Block.applyDispatch.apply m mem = some mem') :
    Reaches i ⟨mem, setting pool i m (.apply spawnResetThread hs)⟩
      ⟨mem', pool.set i (.call m .returned) ++ resetThreads m i spawnResetThread⟩ := by
  have ha : Access.apply m mem (.block .applyDispatch) = some mem' :=
    Access.apply_of_unlocked hfree h
  cases spawnResetThread with
  | false => exact reaches_of_return hi .applyDone ha
  | true => exact (reaches_of_edge hi .applyReset ha).trans (reaches_of_return hi .spawnReset rfl)

/-- `setInterruptor` run alone from its guarded block on, through `applyDispatch()` and the reset
thread, to its return. -/
theorem reaches_store {prev : Interrupt} (hi : i < pool.length)
    (hfree : (mem.macros m).locked = false)
    (h : (if prev = .disable ∨ val = .disable then Block.applyDispatch.apply m
        (mem.modify m fun mac => (mac.storeInterruptor val).1)
      else some (mem.modify m fun mac => (mac.storeInterruptor val).1)) = some mem') :
    Reaches i ⟨mem, setting pool i m (.store prev : SetPc val)⟩ ⟨mem', pool.set i
      (.call m .returned) ++ resetThreads m i ((mem.macros m).storeInterruptor val).2⟩ := by
  have ha : Access.apply m mem (.storeInterruptor val) =
      some (mem.modify m fun mac => (mac.storeInterruptor val).1) :=
    Access.apply_of_unlocked hfree rfl
  by_cases hd : prev = .disable ∨ val = .disable
  · rw [if_pos hd] at h
    refine (reaches_of_edge hi (.storeApply hd) ha).trans (reaches_apply hi ?_ _ h)
    simpa using hfree
  · rw [if_neg hd] at h
    obtain rfl := Option.some.inj h
    cases hs : ((mem.macros m).storeInterruptor val).2 with
    | false => exact reaches_of_return hi (.storeDone hd hs) ha
    | true =>
      exact (reaches_of_edge hi (.storeReset hd hs) ha).trans (reaches_of_return hi .spawnReset rfl)

/-- What `Memory.setInterruptor` computes when it has something to store: the memory after the
block, and whether a reset thread is needed. -/
theorem setInterruptor_eq_some {spawnResetThread : Bool}
    (hval : val ≠ (mem.macros m).interruptor)
    (h : mem.setInterruptor m val = some (mem', spawnResetThread)) :
    (if (mem.macros m).interruptor = .disable ∨ val = .disable then Block.applyDispatch.apply m
        (mem.modify m fun mac => (mac.storeInterruptor val).1)
      else some (mem.modify m fun mac => (mac.storeInterruptor val).1)) = some mem' ∧
    ((mem.macros m).storeInterruptor val).2 = spawnResetThread := by
  simp only [Memory.setInterruptor, if_pos hval] at h
  by_cases hd : (mem.macros m).interruptor = .disable ∨ val = .disable
  · rw [if_pos hd] at h ⊢
    obtain ⟨mem₂, hmem, heq⟩ := Option.map_eq_some_iff.mp h
    obtain ⟨rfl, rfl⟩ := Prod.mk.inj heq
    exact ⟨hmem, rfl⟩
  · rw [if_neg hd] at h ⊢
    obtain ⟨rfl, rfl⟩ := Prod.mk.inj (Option.some.inj h)
    exact ⟨rfl, rfl⟩

/-- **`setInterruptor` run alone** computes `Memory.setInterruptor`, and creates the reset thread
that it asks for. -/
theorem reaches_setInterruptor {spawnResetThread : Bool} (hi : i < pool.length)
    (hfree : (mem.macros m).locked = false)
    (h : mem.setInterruptor m val = some (mem', spawnResetThread)) :
    Reaches i ⟨mem, setting pool i m (.readPrev : SetPc val)⟩
      ⟨mem', pool.set i (.call m .returned) ++ resetThreads m i spawnResetThread⟩ := by
  refine (reaches_of_edge hi .readPrev rfl).trans ?_
  by_cases hval : val = (mem.macros m).interruptor
  · obtain ⟨rfl, rfl⟩ : mem = mem' ∧ false = spawnResetThread := by
      simpa [Memory.setInterruptor, hval] using h
    exact reaches_of_return hi (.same hval) rfl
  · refine (reaches_of_edge hi (.differs hval) rfl).trans ?_
    obtain ⟨hstore, rfl⟩ := setInterruptor_eq_some hval h
    exact reaches_store hi hfree hstore

/-- A guarded setter run alone does what its block does. -/
theorem reaches_block {b : Block} (hi : i < pool.length) (hfree : (mem.macros m).locked = false)
    (h : b.apply m mem = some mem') :
    Reaches i ⟨mem, pool.set i (.call m (.block b))⟩ ⟨mem', pool.set i (.call m .returned)⟩ :=
  reaches_of_move_nil (t := .call m (.block b)) (k := true) hi rfl
    (Access.apply_of_unlocked (a := .block b) hfree h)

/-- An idle macro needs no reset thread, whatever value is set. -/
theorem setInterruptor_snd (hidle : (mem.macros m).threadCount = 0) {spawnResetThread : Bool}
    (h : mem.setInterruptor m val = some (mem', spawnResetThread)) : spawnResetThread = false := by
  by_cases hval : val = (mem.macros m).interruptor
  · simp only [Memory.setInterruptor, hval, ne_eq, not_true, if_false, Option.some.injEq,
      Prod.mk.injEq] at h
    exact h.2.symm
  · rw [← (setInterruptor_eq_some hval h).2, Macro.storeInterruptor_snd]
    simp [Macro.running, hidle]

/-- The call, as a thread that the client has just created. -/
def ConfigCall.entry : ConfigCall → CallPc
  | setActivators array => .block (.setActivators array)
  | setTriggers array => .block (.setTriggers array)
  | setInterruptor val => .checkInterruptor val.code
  | applyDispatch => .block .applyDispatch
  | removeDispatch => .block .removeDispatch

/-- **A configuration call of an idle macro run alone** returns with the memory that
`ConfigCall.run` computes, and leaves no thread behind. -/
theorem ConfigCall.reaches_run {call : ConfigCall} (hi : i < pool.length)
    (hfree : (mem.macros m).locked = false) (hidle : (mem.macros m).threadCount = 0)
    (h : call.run mem m = some mem') :
    Reaches i ⟨mem, pool.set i (.call m call.entry)⟩ ⟨mem', pool.set i (.call m .returned)⟩ := by
  cases call with
  | setActivators | setTriggers | applyDispatch | removeDispatch => exact reaches_block hi hfree h
  | setInterruptor val =>
    obtain ⟨⟨mem₁, spawnResetThread⟩, hset, rfl⟩ := Option.map_eq_some_iff.mp h
    obtain rfl := setInterruptor_snd hidle hset
    have hmove : (Thread.call m (.checkInterruptor val.code)).move
        ⟨mem, pool.set i (.call m (.checkInterruptor val.code))⟩ i true =
          some ⟨.skip, .call m (.setInterruptor val .readPrev), [], []⟩ := by
      simp only [Thread.move, CallPc.move, Interrupt.ofCode?_code]
    refine (reaches_of_move_nil hi hmove rfl).trans ?_
    simpa [resetThreads] using reaches_setInterruptor hi hfree hset

end

end Libmacro
