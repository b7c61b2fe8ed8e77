import Libmacro.PublicCalls
import Libmacro.Threads.Playing

/-! # A client that waits

The calls of a client that waits for the end of each before it makes the next, as a sequential
program: `Request.run` says what a request does to the memory and what it shows, with the run of a
macro that is played as one step. `session_outcome`: the program with its threads does the same,
whatever the order of their steps, and never gets stuck. -/

namespace Libmacro

open Interleaving

/-- `MacroImpl::setThreadMax`: a value out of range throws, and another one is stored and
limited. -/
def Memory.setThreadMax (mem : Memory) (m : MacroId) (val : ℕ) : Memory × Option Stop :=
  if val = 0 ∨ val > mem.threadLimit then (mem, some (.threw ⟨.einval, "Invalid thread max"⟩))
  else if val = (mem.macros m).threadMax then (mem, none)
  else ((mem.modify m fun mac => { mac with threadMax := val }).modify m
    (Macro.limitMaxThreads mem.threadLimit), none)

/-- `MacroImpl::setName`: a null name throws. -/
def Memory.setName (mem : Memory) (m : MacroId) : Option String → Memory × Option Stop
  | none => (mem, some (.threw ⟨.efault, "Null name"⟩))
  | some val => (Block.setName val).call m mem

/-- `start`, with the run of worker `w` if it creates one. -/
def Memory.play (mem : Memory) (m : MacroId) (w : ThreadId) : Memory × List Shown :=
  let mem' := mem.start m (some w)
  if (mem.macros m).interruptor = .continue then
    (mem'.afterRun m, mem'.passes m (mem'.macros m).queued.toNat)
  else (mem', [])

/-- What a client asks of a macro. -/
inductive Request where
  /-- `start()`, `act()` or `receive()`: play the macro. -/
  | play
  /-- `setInterruptor(val)` or `interrupt(val)`; `setEnabled` is one of these. -/
  | setInterruptor (val : ℤ)
  /-- `setName(val)`. -/
  | setName (val : Option String)
  /-- `setThreadMax(val)`. -/
  | setThreadMax (val : ℕ)
  /-- `setContext(ctx)`, not to null. -/
  | setContext (ctx : ContextId)
  /-- A member function that is one guarded block. -/
  | block (b : Block)
  /-- `copy(other)`. -/
  | copy (other : MacroId)
  /-- The destructor. -/
  | destroy

namespace Request

/-- The call that makes the request, as a thread at its first step. -/
def thread (m : MacroId) : Request → Thread
  | play => .call m (.start .lock)
  | setInterruptor val => .call m (.checkInterruptor val)
  | setName val => .call m (.checkName val)
  | setThreadMax val => .call m (.checkThreadMax val)
  | setContext ctx => .call m (.setContext (some ctx))
  | block b => .call m (.block b)
  | copy other => .call m (.copy other .selfTest)
  | destroy => .call m (.destroy (.dequeue .queued))

/-- What the client sees of a call. -/
def seen : Memory × Option Stop → Memory × List Shown
  | (mem, some (.threw error)) => (mem, [.threw (some error)])
  | (mem, _) => (mem, [])

/-- **The request as one step**; `w` is the worker that a `start` creates. -/
def run (mem : Memory) (m : MacroId) (w : ThreadId) : Request → Memory × List Shown
  | play => mem.play m w
  | setInterruptor val => seen (mem.interrupt m val true)
  | setName val => seen (mem.setName m val)
  | setThreadMax val => seen (mem.setThreadMax m val)
  | setContext ctx => (mem.modify m fun mac => { mac with context := some ctx }, [])
  | block b => seen (b.call m mem)
  | copy other => seen (mem.returns (mem.copy m other))
  | destroy => seen (mem.returns (mem.disableEverything m))

/-- The threads that the request leaves, all of which have ended; `n` is the call's. -/
def left (mem : Memory) (m : MacroId) (n : ThreadId) : Request → List Thread
  | play =>
    if (mem.macros m).interruptor = .continue then
      [.call m .returned, .worker m (some n) .finished]
    else [.call m .returned]
  | _ => [.call m .returned]

/-- The client does not wait for what does not end: the run of a sticky macro, or of one that
pauses. -/
def Patient (mem : Memory) (m : MacroId) (req : Request) : Prop :=
  req = play → (mem.macros m).sticky = false ∧ (mem.macros m).interruptor ≠ .pause

end Request

/-- What the requests do, one after the other, with `n` threads so far. -/
def runRequests (mem : Memory) (n : ℕ) : List (MacroId × Request) → Memory × List Shown
  | [] => (mem, [])
  | (m, req) :: rest =>
    let next := req.run mem m (n + 1)
    let last := runRequests next.1 (n + (req.left mem m n).length) rest
    (last.1, next.2 ++ last.2)

/-- The client is patient with each of its requests. -/
def Patiently (mem : Memory) (n : ℕ) : List (MacroId × Request) → Prop
  | [] => True
  | (m, req) :: rest => req.Patient mem m ∧
    Patiently (req.run mem m (n + 1)).1 (n + (req.left mem m n).length) rest

/-! ## Memories at rest -/

/-- A macro that nothing is going on with: a queue that fits, free, not running, with a context. -/
structure Macro.Settled (limit : ℕ) (mac : Macro) : Prop where
  context : mac.context ≠ none
  locked : mac.locked = false
  threadCount : mac.threadCount = 0
  queued : 0 ≤ mac.queued
  queued_le : mac.queued ≤ mac.threadMax
  threadMax : 0 < mac.threadMax
  threadMax_le : mac.threadMax ≤ limit

/-- Nothing is going on with any macro. -/
structure Memory.Settled (mem : Memory) : Prop where
  /-- `g_threadMax` is an `unsigned int`. -/
  limit : mem.threadLimit < 2 ^ 32
  active : mem.activeThreadCount = 0
  macros : ∀ m, (mem.macros m).Settled mem.threadLimit

section Settled

variable {mem mem' : Memory} {m : MacroId} {limit : ℕ} {mac : Macro}

/-- A memory in which one macro has changed, and is settled again. -/
theorem Memory.Settled.of_others (h : mem.Settled) (hlimit : mem'.threadLimit = mem.threadLimit)
    (hactive : mem'.activeThreadCount = 0) (hothers : ∀ m', m' ≠ m → mem'.macros m' = mem.macros m')
    (hmac : (mem'.macros m).Settled mem.threadLimit) : mem'.Settled := by
  refine ⟨hlimit ▸ h.limit, hactive, fun m' => ?_⟩
  rw [hlimit]
  by_cases hm : m' = m
  · exact hm ▸ hmac
  · rw [hothers m' hm]
    exact h.macros m'

/-- A change of one macro that leaves this macro settled leaves the memory settled. -/
theorem Memory.Settled.modify (h : mem.Settled) {f : Macro → Macro}
    (hf : (f (mem.macros m)).Settled mem.threadLimit) : (mem.modify m f).Settled :=
  h.of_others rfl h.active (fun _ hm => mem.modify_macros_of_ne m f hm) (by simpa using hf)

/-- A queue that is emptied or kept, with the rest of what counts. -/
theorem Macro.Settled.congr {mac' : Macro} (h : mac.Settled limit)
    (hctx : mac'.context = mac.context) (hlocked : mac'.locked = mac.locked)
    (hcount : mac'.threadCount = mac.threadCount) (hmax : mac'.threadMax = mac.threadMax)
    (hq : mac'.queued = 0 ∨ mac'.queued = mac.queued) : mac'.Settled limit := by
  have hle := h.queued_le
  have hnonneg := h.queued
  refine ⟨hctx ▸ h.context, hlocked.trans h.locked, hcount.trans h.threadCount, ?_, ?_,
    hmax ▸ h.threadMax, hmax ▸ h.threadMax_le⟩
  · omega
  · omega

/-- A guarded setter starts nothing and leaves no mutex locked. -/
theorem Memory.Settled.block (h : mem.Settled) {b : Block} (hb : b.apply m mem = some mem') :
    mem'.Settled := by
  have hframe := Block.frame hb
  exact h.of_others hframe.threadLimit (hframe.activeThreadCount.trans h.active) hframe.others
    ((h.macros m).congr (Block.context_apply hb) hframe.locked hframe.threadCount hframe.threadMax
      (.inr hframe.queued))

/-- The guarded block of `setInterruptor` leaves the macro settled, whatever the value. -/
theorem Macro.Settled.storeInterruptor (h : mac.Settled limit) (val : Interrupt) :
    (mac.storeInterruptor val).1.Settled limit := by
  obtain ⟨q, n, hstore⟩ := mac.storeInterruptor_frame val
  refine h.congr (by rw [hstore]) (by simp) (by simp) (by simp) ?_
  rw [Macro.storeInterruptor_queued]
  split_ifs
  · exact .inl rfl
  · exact .inr rfl

/-- `setInterruptor` leaves the memory settled, whether it applies the dispatch or not. -/
theorem Memory.Settled.setInterruptor (h : mem.Settled) {val : Interrupt} {flag : Bool}
    (hset : mem.setInterruptor m val = some (mem', flag)) : mem'.Settled := by
  by_cases hval : val = (mem.macros m).interruptor
  · obtain ⟨rfl, -⟩ : mem = mem' ∧ false = flag := by
      simpa [Memory.setInterruptor, hval] using hset
    exact h
  have hstored : (mem.modify m fun mac => (mac.storeInterruptor val).1).Settled :=
    h.modify ((h.macros m).storeInterruptor val)
  obtain ⟨hstore, -⟩ := setInterruptor_eq_some hval hset
  split_ifs at hstore
  · exact hstored.block hstore
  · exact Option.some.inj hstore ▸ hstored

/-- `limitMaxThreads`, from any limit above 0. -/
theorem Macro.Settled.limitMaxThreads (hctx : mac.context ≠ none) (hlocked : mac.locked = false)
    (hcount : mac.threadCount = 0) (hq : 0 ≤ mac.queued) (hle : mac.queued < 2 ^ 32)
    (hpos : 0 < mac.threadMax) (hmax : mac.threadMax ≤ limit) :
    (mac.limitMaxThreads limit).Settled limit := by
  have hclamp : mac.clampThreadMax limit = mac := by
    rw [Macro.clampThreadMax, if_neg (by omega), if_neg (by omega)]
  have hsame : toUnsigned mac.queued = mac.queued := by
    unfold toUnsigned
    omega
  rw [Macro.limitMaxThreads, hclamp]
  split_ifs with habove
  · exact ⟨hctx, hlocked, hcount, Int.le_refl 0, Int.natCast_nonneg _, hpos, hmax⟩
  · exact ⟨hctx, hlocked, hcount, hq, by omega, hpos, hmax⟩

/-- `disableEverything` leaves the memory settled, and the queue of the macro empty. -/
theorem Memory.Settled.disableEverything (h : mem.Settled)
    (hdisable : mem.disableEverything m = some mem') :
    mem'.Settled ∧ (mem'.macros m).queued = 0 := by
  have hothers := (MacroCall.spec_disableEverything hdisable).others
  obtain ⟨reg, -, hmem'⟩ := Option.bind_eq_some_iff.mp hdisable
  obtain ⟨n, hn⟩ := @MacroCall.macros_disableEverything mem m reg
  obtain rfl := Option.some.inj hmem'
  refine ⟨h.of_others rfl ?_ hothers ?_, by rw [hn]⟩
  · simp [Memory.clearThreads, h.active]
  · rw [hn]
    exact (h.macros m).congr rfl rfl (h.macros m).threadCount.symm rfl (.inl rfl)

/-- `copy` leaves the memory settled: it takes over a configuration, and no run. -/
theorem Memory.Settled.copy (h : mem.Settled) {other : MacroId}
    (hcopy : mem.copy m other = some mem') : mem'.Settled := by
  by_cases hself : m = other
  · rw [Memory.copy, if_pos hself] at hcopy
    exact Option.some.inj hcopy ▸ h
  rw [Memory.copy, if_neg hself] at hcopy
  obtain ⟨mem₁, hdisable, happly⟩ := Option.bind_eq_some_iff.mp hcopy
  obtain ⟨h₁, hq⟩ := h.disableEverything hdisable
  have hsrc := h₁.macros other
  have hmac := h₁.macros m
  refine Memory.Settled.block (m := m) (b := .applyDispatch) ?_ happly
  refine h₁.of_others (m := m) rfl h₁.active (fun m' hm => ?_) ?_
  · rw [Memory.modify_macros_of_ne _ _ _ hm, Memory.copyFrom, Memory.modify_macros_of_ne _ _ _ hm]
  · rw [Memory.modify_macros_self, MacroCall.macros_copyFrom]
    exact Macro.Settled.limitMaxThreads hsrc.context hmac.locked hmac.threadCount
      (Int.le_of_eq hq.symm) (by simp only [hq]; decide) hsrc.threadMax hsrc.threadMax_le

/-- `incQueued` puts an entry into a queue that has room. -/
theorem Macro.Settled.incQueued_eq (h : mac.Settled limit) (hlimit : limit < 2 ^ 32) :
    mac.incQueued limit = { mac with queued := min (mac.queued + 1) mac.threadMax } := by
  obtain ⟨-, -, -, hq, hle, hpos, hmax⟩ := h
  have hsame : toUnsigned mac.queued = mac.queued := by
    unfold toUnsigned
    omega
  by_cases hroom : toUnsigned mac.queued < mac.threadMax
  · have hkept : Macro.limitMaxThreads limit { mac with queued := mac.queued + 1 } =
        { mac with queued := mac.queued + 1 } :=
      Macro.limitMaxThreads_eq_self hpos hmax (show 0 ≤ mac.queued + 1 by omega)
        (show mac.queued + 1 ≤ mac.threadMax by omega)
    rw [Macro.incQueued_of_lt hroom, hkept, min_eq_left (by omega)]
  · have hfull : mac.queued = mac.threadMax := by omega
    rw [Macro.incQueued_of_not_lt hroom, min_eq_right (by omega), ← hfull]

/-- A start finds a slot, and its queue is not refused. -/
theorem Memory.Settled.accepts (h : mem.Settled) (m : MacroId) :
    mem.activeThreadCount < mem.threadLimit ∧
      ¬ ((mem.macros m).incQueued mem.threadLimit).Refused := by
  have hinc := (h.macros m).incQueued_eq h.limit
  have hactive := h.active
  obtain ⟨-, -, -, hq, hle, hpos, hmax⟩ := h.macros m
  refine ⟨by omega, ?_⟩
  rw [hinc]
  rintro (habove | hzero)
  · exact absurd habove (Nat.not_lt.mpr (toUnsigned_le
      (show 0 ≤ min ((mem.macros m).queued + 1) ((mem.macros m).threadMax : ℤ) by omega)
      (show min ((mem.macros m).queued + 1) ((mem.macros m).threadMax : ℤ) ≤
        (mem.macros m).threadMax by omega)))
  · have hzero' : min ((mem.macros m).queued + 1) ((mem.macros m).threadMax : ℤ) = 0 := hzero
    omega

/-- What `start` makes of a settled macro that is enabled. -/
theorem Memory.Settled.start_eq (h : mem.Settled) (w : ThreadId)
    (hv : (mem.macros m).interruptor = .continue) : mem.start m (some w) =
      { mem with activeThreadCount := 1 }.modify m fun mac => { mac with
        queued := min (mac.queued + 1) mac.threadMax
        threads := mac.threads ++ [w] } := by
  have hmac := h.macros m
  obtain ⟨hslot, haccepted⟩ := h.accepts m
  have hroom : (mem.macros m).threadCount < (mem.macros m).threadMax := by
    rw [hmac.threadCount]
    exact hmac.threadMax
  have hspawns := @trySpawnThread_of_accepted mem m (some w) (Nat.not_le.mpr hslot) haccepted
  rw [start_of_spawns (.inl hv) hroom (by rw [hspawns]), hspawns, h.active]
  refine Memory.modify_congr _ m ?_
  rw [Macro.spawn, hmac.incQueued_eq h.limit]

/-- A play of a macro that is not paused leaves the memory settled. -/
theorem Memory.Settled.play (h : mem.Settled) (w : ThreadId)
    (hpause : (mem.macros m).interruptor ≠ .pause) : (mem.play m w).1.Settled := by
  have hmac := h.macros m
  obtain ⟨hctx, hlocked, hcount, hq, hle, hpos, hmax⟩ := hmac
  unfold Memory.play
  dsimp only
  split_ifs with hv
  · -- the entry of the start and those before it are played, if there is anything to play
    rw [h.start_eq w hv]
    refine h.of_others (m := m) rfl rfl (fun m' hm => by simp [Memory.afterRun, hm]) ?_
    simp only [Memory.afterRun, Memory.modify_macros_self, Macro.drain]
    refine ⟨hctx, hlocked, hcount, ?_, ?_, hpos, hmax⟩
    · dsimp only
      split_ifs <;> omega
    · dsimp only
      split_ifs <;> omega
  · rw [Memory.start]
    split
    · next hi => exact absurd hi hv
    · next hi => exact absurd hi hpause
    · dsimp only
      refine h.modify ?_
      exact (h.macros m).congr rfl rfl rfl rfl (.inr rfl)
    · exact h
    · exact h

/-- `setThreadMax` leaves the memory settled, whether it throws or not. -/
theorem Memory.Settled.setThreadMax (h : mem.Settled) (val : ℕ) :
    (mem.setThreadMax m val).1.Settled := by
  have hmac := h.macros m
  have hlimit := h.limit
  unfold Memory.setThreadMax
  split_ifs with hbad hsame
  · exact h
  · exact h
  · dsimp only
    rw [Memory.modify_modify]
    refine h.modify (Macro.Settled.limitMaxThreads hmac.context hmac.locked hmac.threadCount
      hmac.queued ?_ (Nat.pos_of_ne_zero (not_or.mp hbad).1) (Nat.not_lt.mp (not_or.mp hbad).2))
    have hle := hmac.queued_le
    have hmax := hmac.threadMax_le
    simp only
    omega

/-- **Requests keep the memory settled**, each of them when it is one that comes to its end. -/
theorem Memory.Settled.run (h : mem.Settled) (w : ThreadId) {req : Request}
    (hpatient : req.Patient mem m) : (req.run mem m w).1.Settled := by
  have hseen : ∀ r : Memory × Option Stop, (Request.seen r).1 = r.1 := by
    rintro ⟨mem', _ | _ | _ | _⟩ <;> rfl
  have hcall : ∀ b : Block, (b.call m mem).1.Settled := by
    intro b
    obtain ⟨mem', hb⟩ := Block.exists_apply (h.macros m).context b
    rw [Block.call, hb]
    exact h.block hb
  cases req with
  | play => exact h.play w (hpatient rfl).2
  | setInterruptor val =>
    rw [Request.run, hseen, Memory.interrupt]
    split
    · exact h
    · split
      · exact h
      · next hset => exact h.setInterruptor hset
  | setName val =>
    rw [Request.run, hseen]
    cases val with
    | none => exact h
    | some val => exact hcall _
  | setThreadMax val =>
    rw [Request.run, hseen]
    exact h.setThreadMax val
  | setContext ctx =>
    obtain ⟨-, hlocked, hcount, hq, hle, hpos, hmax⟩ := h.macros m
    rw [Request.run]
    dsimp only
    refine h.modify ?_
    exact ⟨Option.some_ne_none ctx, hlocked, hcount, hq, hle, hpos, hmax⟩
  | block b =>
    rw [Request.run, hseen]
    exact hcall b
  | copy other =>
    rw [Request.run, hseen]
    cases hcopy : mem.copy m other with
    | none => exact h
    | some mem' => exact h.copy hcopy
  | destroy =>
    rw [Request.run, hseen]
    cases hdisable : mem.disableEverything m with
    | none => exact h
    | some mem' => exact (h.disableEverything hdisable).1

end Settled

/-! ## One request -/

section Request

variable {P : List Shown → Config Memory Thread → Prop} {s : List Shown} {mem : Memory}
  {m : MacroId} {old : List Thread}

/-- A call that throws shows its error and returns. -/
theorem comes_throw (hold : ∀ t ∈ old, t.ended = true) {pc : CallPc} {e : Error}
    (hmove : (Thread.call m pc).move ⟨mem, old ++ [.call m pc]⟩ old.length true =
      some ⟨.skip, .call m .returned, [], [.threw old.length (some e)]⟩)
    (h : Comes P (s ++ [.threw (some e)]) ⟨mem, old ++ [.call m .returned]⟩) :
    Comes P s ⟨mem, old ++ [.call m pc]⟩ :=
  comes_of_move (m := m) hold rfl hmove rfl h

/-- A guarded setter comes to its end in one step, with the error it throws if it does. -/
theorem comes_block (hold : ∀ t ∈ old, t.ended = true) (hmem : mem.Settled) (b : Block)
    (h : Comes P (s ++ (Request.seen (b.call m mem)).2)
      ⟨(Request.seen (b.call m mem)).1, old ++ [.call m .returned]⟩) :
    Comes P s ⟨mem, old ++ [.call m (.block b)]⟩ := by
  obtain ⟨mem', hb⟩ := Block.exists_apply (hmem.macros m).context b
  refine comes_of_move (m := m) hold rfl (a := .block b) (u := .call m .returned) rfl
    (Access.apply_of_unlocked (hmem.macros m).locked hb) ?_
  rw [Block.call, hb] at h
  cases herror : b.error m mem with
  | none => simpa [herror, Request.seen] using h
  | some error => simpa [herror, Request.seen, Event.shown] using h

/-- **A request comes to its end**, with what `Request.run` says. -/
theorem comes_request (hold : ∀ t ∈ old, t.ended = true) (hmem : mem.Settled) {req : Request}
    (hpatient : req.Patient mem m)
    (h : Comes P (s ++ (req.run mem m (old.length + 1)).2)
      ⟨(req.run mem m (old.length + 1)).1, old ++ req.left mem m old.length⟩) :
    Comes P s ⟨mem, old ++ [req.thread m]⟩ := by
  have hmac := hmem.macros m
  cases req with
  | play =>
    obtain ⟨hsticky, hpause⟩ := hpatient rfl
    rw [Request.run, Memory.play] at h
    by_cases hv : (mem.macros m).interruptor = .continue
    -- a `CONTINUE` macro: the start creates its worker, which plays the list and ends
    · have hstart := hmem.start_eq (m := m) (old.length + 1) hv
      obtain ⟨hslot, haccepted⟩ := hmem.accepts m
      have hroom : (mem.macros m).threadCount < (mem.macros m).threadMax := by
        rw [hmac.threadCount]
        exact hmac.threadMax
      refine comes_start hold hmac.locked (.inl hv) hroom hslot haccepted ?_
      refine comes_run (forall_mem_concat hold rfl) ?_ ?_ ?_ ?_ ?_ ?_ ?_
      · simp [hstart, hmac.locked]
      · simp [hstart, hv]
      · simp [hstart, hsticky]
      · simp [hstart, hmac.threadMax]
      · simp [hstart, hmac.threadMax_le]
      · simp [hstart]
      · simpa [Request.left, hv] using h
    -- the interruptor turns the start away
    · refine comes_start_of_interrupted hold hmac.locked hv hpause (some (old.length + 1)) ?_
      simpa [Request.left, hv] using h
  | setInterruptor val =>
    rw [Request.run, Memory.interrupt] at h
    rw [Request.thread]
    cases hcode : Interrupt.ofCode? val with
    | none =>
      refine comes_throw (e := ⟨.einval, "Invalid interruptor value"⟩) hold
        (by simp only [Thread.move, CallPc.move, hcode]) ?_
      simpa [hcode, Request.seen, Request.left] using h
    | some v =>
      refine comes_of_silent (m := m) hold rfl (a := .skip)
        (u := .call m (.setInterruptor v .readPrev)) ?_ rfl ?_
      · simp only [Thread.move, CallPc.move, hcode]
      cases hset : mem.setInterruptor m v with
      | none => exact absurd (Memory.setInterruptor_eq_none_iff.mp hset).2.2 hmac.context
      | some result =>
        obtain ⟨mem', flag⟩ := result
        refine comes_setInterruptor hold hmac.locked hmac.threadCount hset ?_
        simpa [hcode, hset, Request.seen, Request.left] using h
  | setName val =>
    cases val with
    | none =>
      refine comes_throw (e := ⟨.efault, "Null name"⟩) hold rfl ?_
      simpa [Request.run, Request.seen, Request.left, Memory.setName] using h
    | some val =>
      refine comes_of_silent (m := m) hold rfl (a := .skip) (u := .call m (.block (.setName val)))
        rfl rfl ?_
      exact comes_block hold hmem _ h
  | setThreadMax val =>
    rw [Request.run, Memory.setThreadMax] at h
    rw [Request.thread]
    by_cases hbad : val = 0 ∨ val > mem.threadLimit
    -- out of range
    · refine comes_throw (e := ⟨.einval, "Invalid thread max"⟩) hold
        (by simp only [Thread.move, CallPc.move, if_pos hbad]) ?_
      rw [if_pos hbad] at h
      simpa [Request.seen, Request.left] using h
    refine comes_of_silent (m := m) hold rfl (a := .skip) (u := .call m (.storeThreadMax val)) ?_
      rfl ?_
    · simp only [Thread.move, CallPc.move, if_neg hbad]
    by_cases hsame : val = (mem.macros m).threadMax
    · refine comes_of_silent (m := m) hold rfl (a := .peek) (u := .call m .returned) ?_
        (Access.apply_of_unlocked hmac.locked rfl) ?_
      · simp only [Thread.move, CallPc.move, if_pos hsame]
      rw [if_neg hbad, if_pos hsame] at h
      simpa [Request.seen, Request.left] using h
    · refine comes_of_silent (m := m) hold rfl (a := .setThreadMax val)
        (u := .call m (.limit .clamp)) ?_ (Access.apply_of_unlocked hmac.locked rfl) ?_
      · simp only [Thread.move, CallPc.move, if_neg hsame]
      refine comes_limitMaxThreads (m := m) (fun p => .call m (.limit p)) _ hold (fun _ => rfl)
        (fun _ _ _ => rfl) ?_
      rw [if_neg hbad, if_neg hsame] at h
      simpa [Request.seen, Request.left] using h
  | setContext ctx =>
    refine comes_of_silent (m := m) hold rfl (a := .setContext (some ctx)) rfl rfl ?_
    simpa [Request.run, Request.left] using h
  | block b => exact comes_block hold hmem b h
  -- contexts are not null, so neither the copy nor the destructor reads a null pointer
  | copy other =>
    rw [Request.run] at h
    cases hcopy : mem.copy m other with
    | none =>
      obtain ⟨-, hnone | ⟨-, hnone⟩⟩ := Memory.copy_eq_none_iff.mp hcopy
      · exact absurd hnone hmac.context
      · exact absurd hnone (hmem.macros other).context
    | some mem' =>
      refine comes_copy hold hmac.locked hmac.threadCount hcopy ?_
      simpa [hcopy, Memory.returns, Request.seen, Request.left] using h
  | destroy =>
    rw [Request.run] at h
    cases hdisable : mem.disableEverything m with
    | none => exact absurd (Memory.disableEverything_eq_none_iff.mp hdisable) hmac.context
    | some mem' =>
      refine comes_disableEverything (fun p => .call m (.destroy p)) _ hold hmac.threadCount
        (fun _ => rfl) (fun _ _ _ => rfl) hdisable ?_
      simpa [hdisable, Memory.returns, Request.seen, Request.left] using h

/-- The threads that a request leaves have ended. -/
theorem ended_of_left (hold : ∀ t ∈ old, t.ended = true) (req : Request) (n : ThreadId) :
    ∀ t ∈ old ++ req.left mem m n, t.ended = true := by
  have hleft : ∀ t ∈ req.left mem m n, t.ended = true := by
    unfold Request.left
    split
    · split_ifs <;> simp [Thread.ended]
    · simp [Thread.ended]
  exact fun t ht => (List.mem_append.mp ht).elim (hold t) (hleft t)

/-- The client makes the request: its call is a new thread, and shows nothing yet. -/
theorem step_request (c : Config Memory Thread) (m : MacroId) (req : Request) :
    ∃ ev, program.step c (.call (req.thread m)) =
      some (ev, ⟨c.shared, c.pool ++ [req.thread m]⟩) ∧ ev.filterMap Event.shown = [] := by
  cases req with
  | play => exact ⟨[.start m], rfl, rfl⟩
  | _ => exact ⟨[], rfl, rfl⟩

end Request

/-- The calls of a client that makes the requests. -/
abbrev calls (reqs : List (MacroId × Request)) : List Thread :=
  reqs.map fun r => r.2.thread r.1

/-- **A client that waits sees a sequential program.** From a settled memory, each session of a
patient client in which nothing fails and no delivered signal calls a macro can be carried through,
and however the steps of the threads are ordered, it shows what the requests show one after the
other, and leaves the memory that they leave. -/
theorem session_outcome {mem : Memory} {pool : List Thread} {reqs : List (MacroId × Request)}
    (hmem : mem.Settled) (hold : ∀ t ∈ pool, t.ended = true)
    (hpatient : Patiently mem pool.length reqs) :
    (∃ tr c, program.Session NothingFails Thread.ended ⟨mem, pool⟩ (calls reqs) tr c) ∧
      ∀ tr c, program.Session NothingFails Thread.ended ⟨mem, pool⟩ (calls reqs) tr c →
        tr.filterMap Event.shown = (runRequests mem pool.length reqs).2 ∧
          c.shared = (runRequests mem pool.length reqs).1 := by
  induction reqs generalizing mem pool with
  | nil =>
    refine ⟨⟨[], _, .nil⟩, fun tr c hsession => ?_⟩
    cases hsession
    exact ⟨rfl, rfl⟩
  | cons r rest ih =>
    obtain ⟨m, req⟩ := r
    obtain ⟨hreq, hrest⟩ := hpatient
    have hended : ∀ t ∈ pool ++ req.left mem m pool.length, t.ended = true :=
      ended_of_left hold req pool.length
    have hlength : (pool ++ req.left mem m pool.length).length =
        pool.length + (req.left mem m pool.length).length := List.length_append
    -- the request comes to one end, from which the rest goes on
    obtain ⟨⟨tr₁, hrun₁, hshown₁⟩, hall⟩ := Machine.Attains.outcome
      (comes_request hold hmem hreq (.done ⟨rfl, rfl⟩)) (halted_of_ended
        (c := ⟨(req.run mem m (pool.length + 1)).1, pool ++ req.left mem m pool.length⟩) hended)
    rw [← hlength] at hrest
    obtain ⟨⟨tr₂, c₂, hsession₂⟩, hall₂⟩ := ih (hmem.run (pool.length + 1) hreq) hended hrest
    obtain ⟨ev, hcall, hev⟩ := step_request ⟨mem, pool⟩ m req
    refine ⟨⟨_, c₂, .cons hcall hrun₁ hended hsession₂⟩, fun tr c hsession => ?_⟩
    cases hsession with
    | cons hcall' hrun hover hsession =>
      obtain ⟨rfl, rfl⟩ := Prod.mk.inj (Option.some.inj (hcall'.symm.trans hcall))
      obtain ⟨hshown, rfl⟩ := hall _ _ hrun (halted_of_ended hover)
      obtain ⟨hshown', hshared⟩ := hall₂ _ _ hsession
      rw [hlength] at hshown' hshared
      refine ⟨?_, hshared⟩
      rw [List.filterMap_append, List.filterMap_append, hev, hshown, hshown']
      rfl

/-- A client that plays a macro, disables it, plays it in vain, and copies it to another one. -/
theorem session_outcome_play : ∃ tr c,
    program.Session NothingFails Thread.ended
      ⟨.ofMacro { interruptor := .continue, context := some 0, signals := [some 7, none, some 8] },
        []⟩
      (calls [(0, .play), (0, .setInterruptor 4), (0, .play), (1, .copy 0), (1, .play),
        (1, .setThreadMax 0)]) tr c ∧
    tr.filterMap Event.shown = [.pass 0, .delivered 0 7 (some 1), .delivered 0 8 none,
      .threw (some ⟨.einval, "Invalid thread max"⟩)] ∧
    (c.shared.macros 1).interruptor = .disable := by
  have hmac : Macro.Settled 0x10
      { interruptor := .continue, context := some 0, signals := [some 7, none, some 8] } :=
    ⟨by decide, rfl, rfl, by decide, by decide, by decide, by decide⟩
  have hmem : (Memory.ofMacro
      { interruptor := .continue, context := some 0, signals := [some 7, none, some 8] }).Settled :=
    ⟨by decide, rfl, fun _ => hmac⟩
  have hpatient : Patiently (Memory.ofMacro
      { interruptor := .continue, context := some 0, signals := [some 7, none, some 8] }) 0
        [(0, .play), (0, .setInterruptor 4), (0, .play), (1, .copy 0), (1, .play),
          (1, .setThreadMax 0)] :=
    ⟨fun _ => by decide, nofun, fun _ => by decide, nofun, fun _ => by decide, nofun, trivial⟩
  obtain ⟨⟨tr, c, hsession⟩, hall⟩ := @session_outcome _ [] _ hmem (by simp) hpatient
  obtain ⟨hshown, hshared⟩ := hall tr c hsession
  exact ⟨tr, c, hsession, hshown.trans (by decide), hshared ▸ by decide⟩

end Libmacro
