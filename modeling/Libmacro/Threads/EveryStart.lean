import Libmacro.Threads.Queue
import Libmacro.Threads.Sessions

/-! # Every start is played

A macro that its clients do nothing with but start it. An entry of the queue is put there by one
start, and taken by any of the workers; the start that put it there spawns a worker later, and a
worker sends the signal list once for each entry it takes. `played_of_starts` says that this comes
out even, however the threads interleave: when all of them have ended, the list has been sent once
for each worker that was spawned, each signal has been delivered as often as the list names it in
so many passes, and the queue is empty. The runs are those in which nothing is turned away or lost
on the way (`servesStart`). -/

namespace Libmacro

open Interleaving

/-- The event is the spawn of a worker of macro `m`. -/
def Event.isSpawn (m : MacroId) : Event → Bool
  | spawn m' _ => m' = m
  | _ => false

/-- The event is a delivery of signal `s` by macro `m`. -/
def Event.delivers (m : MacroId) (s : SignalId) : Event → Bool
  | deliver m' _ s' _ => m' = m ∧ s' = s
  | _ => false

/-- **Nothing is turned away or lost** in a step of macro `m`: a worker that has seen an entry
finds it still in the queue; a start that there is room for gets a slot, puts its entry into the
queue and finds one there before it creates its worker; and nothing throws. -/
def servesStart (m : MacroId) (c : Config Memory Thread) : Label Thread Bool → Bool
  | .step i k =>
    match c.pool[i]? with
    | some (.worker m' _ .decTest) | some (.worker m' _ .decrement)
    | some (.call m' (.start .zeroTest)) => m' ≠ m ∨ 0 < (c.shared.macros m).queued
    | some (.call m' (.start .reserve)) =>
      m' ≠ m ∨ c.shared.activeThreadCount < c.shared.threadLimit
    | some (.call m' (.start .incTest)) =>
      m' ≠ m ∨ toUnsigned (c.shared.macros m).queued < (c.shared.macros m).threadMax
    | some (.worker m' _ (.delivering _)) | some (.call m' (.start .spawn)) => m' ≠ m ∨ k = true
    | _ => true
  | .call _ => true

/-- A macro that is started only: it is neither interrupted nor sticky, it has signals, and its
queue and its limit are in range. -/
structure Macro.Playable (limit : ℕ) (signals : List (Option SignalId)) (mac : Macro) : Prop where
  interruptor : mac.interruptor = .continue
  sticky : mac.sticky = false
  signals_eq : mac.signals = signals
  signals_ne : signals ≠ []
  queued : 0 ≤ mac.queued
  queued_le : mac.queued ≤ mac.threadMax
  threadMax : 0 < mac.threadMax
  threadMax_le : mac.threadMax ≤ limit
  limit_lt : limit < 2 ^ 32

/-! ## Where the entries are -/

/-- The points of `run` that a macro that is started only comes to. -/
def RunPc.plain : RunPc → Bool
  | consume _ (.set _) | pause (.loop _) | countTest | limit .store => false
  | _ => true

/-- The points of `start` that a start comes to that is not turned away. -/
def StartPc.plain : StartPc → Bool
  | cancel | cancelNotify | incLimit .store | refuse | abandon | fail | limit _ => false
  | _ => true

/-- Of the calls only `start` is made. -/
def CallPc.plain : CallPc → Bool
  | start p => p.plain
  | returned => true
  | _ => false

/-- A thread that macro `m` may have when it is started only. -/
def Thread.plain (m : MacroId) : Thread → Bool
  | worker m' _ p => m' ≠ m ∨ p.plain
  | reset m' _ _ => m' ≠ m
  | call m' p => m' ≠ m ∨ p.plain

/-- The start has put its entry into the queue, and has not created its worker. -/
def StartPc.admitted : StartPc → ℕ
  | incLimit _ | retTest | zeroTest | spawn => 1
  | _ => 0

/-- The start of a call that has put its entry into the queue. -/
def CallPc.admitted : CallPc → ℕ
  | start p => p.admitted
  | _ => 0

/-- The deliveries of signal `s` that are left of the pass. -/
def RunPc.remaining (s : SignalId) : RunPc → ℕ
  | breakTest rest | delivering rest => rest.count (some s)
  | skipTest x rest | deliver x rest => (x :: rest).count (some s)
  | _ => 0

/-- The worker has not seen the queue empty. -/
def RunPc.plays : RunPc → ℕ
  | stickyTest | countTest | uncount | release | notifyDone | finished => 0
  | _ => 1

/-- The entry of macro `m` that the worker has taken for its next pass. -/
abbrev Thread.taken (m : MacroId) : Thread → ℕ :=
  onMacro m (fun _ => RunPc.owed) (fun _ => 0) (fun _ => 0)

/-- The entry of macro `m` whose start has not created its worker. -/
abbrev Thread.admitted (m : MacroId) : Thread → ℕ :=
  onMacro m (fun _ _ => 0) (fun _ => 0) CallPc.admitted

/-- What is left of the thread's pass over the signals of macro `m`. -/
abbrev Thread.remaining (m : MacroId) (s : SignalId) : Thread → ℕ :=
  onMacro m (fun _ => RunPc.remaining s) (fun _ => 0) (fun _ => 0)

/-- The thread will look at the queue of macro `m`, or creates a worker that will. -/
abbrev Thread.plays (m : MacroId) : Thread → ℕ :=
  onMacro m (fun _ => RunPc.plays) (fun _ => 0) CallPc.admitted

/-! ## The steps -/

/-- The access leaves what a macro that is started only needs. -/
def Access.keepsQueue : Access → Bool
  | skip | peek | lock | unlock | notify | countThread | uncountThread | reserveSlot | releaseSlot
  | clampThreadMax => true
  | _ => false

/-- **The steps of a macro that is started only**: an entry is put into the queue, it is taken,
its pass begins, the pass delivers a signal, a worker is created; or none of these, and then a
worker that turns from the queue has seen it empty. -/
inductive Thread.PlayStep (mac : Macro) (m : MacroId) (i w : ThreadId) : Thread → Move → Prop
  | quiet {t u : Thread} {a : Access} (hplain : u.plain m = true) (ha : a.keepsQueue = true)
      (htaken : u.taken m = t.taken m) (hadmitted : u.admitted m = t.admitted m)
      (hremaining : ∀ s, u.remaining m s = t.remaining m s)
      (hplays : t.plays m ≤ u.plays m ∨ mac.queued ≤ 0)
      (hfits : u = .call m (.start .increment) → mac.queued < mac.threadMax) :
      PlayStep mac m i w t ⟨a, u, [], []⟩
  | put : PlayStep mac m i w (.call m (.start .increment))
      ⟨.incQueued, .call m (.start (.incLimit .clamp)), [], []⟩
  | take {o : Option ThreadId} (h : 0 < mac.queued) :
      PlayStep mac m i w (.worker m o .decrement) ⟨.decQueued, .worker m o (.limit .clamp), [], []⟩
  | pass {o : Option ThreadId} : PlayStep mac m i w (.worker m o .dispatchSignals)
      ⟨.skip, .worker m o (.breakTest mac.signals), [], [.pass m i]⟩
  | deliver {o : Option ThreadId} {s : SignalId} {rest : List (Option SignalId)}
      {via : Option DispatcherId} : PlayStep mac m i w (.worker m o (.deliver (some s) rest))
      ⟨.skip, .worker m o (.delivering rest), [], [.deliver m i s via]⟩
  | spawn : PlayStep mac m i w (.call m (.start .spawn))
      ⟨.pushThread w, .call m (.start .leave), [.worker m (some i) .count], [.spawn m w]⟩

section Edges

variable {limit : ℕ} {signals : List (Option SignalId)} {mem : Memory} {m : MacroId}
  {i w : ThreadId} {a : Access}

/-- A queue in range is not above the limit. -/
theorem Macro.Playable.not_above {mac : Macro} (h : mac.Playable limit signals) :
    ¬ toUnsigned mac.queued > mac.threadMax :=
  Nat.not_lt.mpr (toUnsigned_le h.queued h.queued_le)

/-- The comparison of `incQueued` means what it says on a queue in range. -/
theorem Macro.Playable.queued_lt {mac : Macro} (h : mac.Playable limit signals)
    (hroom : toUnsigned mac.queued < mac.threadMax) : mac.queued < mac.threadMax := by
  have hnonneg := h.queued
  have hle := h.queued_le
  have hmax := h.threadMax_le
  have hlimit := h.limit_lt
  unfold toUnsigned at hroom
  omega

/-- An edge of `run` that moves no entry. -/
theorem Thread.PlayStep.of_run {mac : Macro} {o : Option ThreadId} {p p' : RunPc}
    (hplain : p'.plain = true) (ha : a.keepsQueue = true) (howed : p'.owed = p.owed)
    (hremaining : ∀ s, p'.remaining s = p.remaining s)
    (hplays : p.plays ≤ p'.plays ∨ mac.queued ≤ 0) :
    PlayStep mac m i w (worker m o p) ⟨a, worker m o p', [], []⟩ :=
  .quiet (by simpa [plain] using hplain) ha (by simpa using howed) (by simp)
    (by simpa using hremaining) (by simpa using hplays) nofun

/-- An edge of `start` that moves no entry. -/
theorem Thread.PlayStep.of_start {mac : Macro} {p p' : CallPc} (hplain : p'.plain = true)
    (ha : a.keepsQueue = true) (hadmitted : p'.admitted = p.admitted)
    (hfits : p' = .start .increment → mac.queued < mac.threadMax) :
    PlayStep mac m i w (call m p) ⟨a, call m p', [], []⟩ :=
  .quiet (by simpa [plain] using hplain) ha (by simp) (by simpa using hadmitted) (by simp)
    (.inl (by simp [hadmitted])) (by simpa using hfits)

/-- **The edges of `run`** in a macro that is started only. -/
theorem RunPc.Step.play {p p' : RunPc} {ev : List Event} (h : p.Step mem m i a p' ev)
    (hmac : (mem.macros m).Playable limit signals) (hplain : p.plain = true)
    (hentry : p = .decTest ∨ p = .decrement → 0 < (mem.macros m).queued)
    (hthrow : ∀ rest, p = .delivering rest → p' = .breakTest rest) (o : Option ThreadId) :
    Thread.PlayStep (mem.macros m) m i w (.worker m o p) ⟨a, .worker m o p', [], ev⟩ := by
  have hv := hmac.interruptor
  cases h with
  | decrement => exact .take (hentry (.inr rfl))
  | dispatchSignals => exact .pass
  | deliver => exact .deliver
  | consumeSet | consumed | pauseWait | pauseOver | surplus | lastOne => cases hplain
  | consumeTest h | interrupted h | paused h => simp [hv] at h
  | loopBreak h | passBreak h | skip h => simp [hv, Interrupt.code] at h
  | noSignals h => exact absurd (hmac.signals_eq.symm.trans h) hmac.signals_ne
  | sticky h => simp [hmac.sticky] at h
  | declined h => exact absurd h (not_le.mpr (hentry (.inl rfl)))
  | threw => cases hthrow _ rfl
  -- a worker turns away from a queue that it finds empty
  | idle h => exact .of_run rfl rfl rfl (fun _ => rfl) (.inr h)
  | notInterrupted h hp =>
    next inLoop p =>
    rcases hp with ⟨rfl, rfl⟩ | ⟨rfl, rfl⟩ <;> cases inLoop <;>
      exact .of_run rfl rfl rfl (fun _ => rfl) (.inl (Nat.le_refl _))
  | limit h =>
    cases h with
    | clamp => exact .of_run rfl rfl rfl (fun _ => rfl) (.inl (Nat.le_refl _))
    | exceeds h => exact absurd h hmac.not_above
  | limited h =>
    cases h with
    | fits h => exact .of_run rfl rfl rfl (fun _ => rfl) (.inl (Nat.le_refl _))
    | store => cases hplain
  | nullSignal =>
    exact .of_run rfl rfl rfl (fun _ => by simp [remaining]) (.inl (Nat.le_refl _))
  | _ => exact .of_run rfl rfl rfl (fun _ => rfl) (.inl (Nat.le_refl _))

/-- **The edges of `start`** in a macro that is started only. -/
theorem CallPc.Step.play {pool : List Thread} {p p' : CallPc} {ts : List Thread} {ev : List Event}
    (h : p.Step mem pool m i a p' ts ev) (hmac : (mem.macros m).Playable limit signals)
    (hplain : p.plain = true) (hentry : p = .start .zeroTest → 0 < (mem.macros m).queued)
    (hslot : p = .start .reserve → mem.activeThreadCount < mem.threadLimit)
    (hroom : p = .start .incTest →
      toUnsigned (mem.macros m).queued < (mem.macros m).threadMax)
    (hthrow : p = .start .spawn → p' = .start .leave) :
    Thread.PlayStep (mem.macros m) m i pool.length (.call m p) ⟨a, .call m p', ts, ev⟩ := by
  have hv := hmac.interruptor
  cases h with
  | start h =>
    cases h with
    | increment => exact .put
    | spawn => exact .spawn
    -- the steps of a start that is being turned away are not plain
    | cancel | cancelNotify | refuse | abandon | fail | limit => cases hplain
    | interrupted h | disabled h => simp [hv] at h
    | noSlot h => exact absurd (hslot rfl) (Nat.not_lt.mpr h)
    | noRoom h => exact absurd (hroom rfl) h
    | above h => exact absurd h hmac.not_above
    | zero h =>
      have hpos := hentry rfl
      omega
    | spawnThrows => cases hthrow rfl
    -- there was room at the test, so there is room for the entry
    | room h => exact .of_start rfl rfl rfl fun _ => hmac.queued_lt h
    | incLimit h =>
      cases h with
      | clamp => exact .of_start rfl rfl rfl nofun
      | exceeds h => exact absurd h hmac.not_above
    | incLimited h =>
      cases h with
      | fits h => exact .of_start rfl rfl rfl nofun
      | store => cases hplain
    | _ => exact .of_start rfl rfl rfl nofun
  | started h =>
    cases h with
    | leave => exact .of_start rfl rfl rfl nofun
    | limited => cases hplain
  | _ => cases hplain

/-- **Every step of the macro is one of these**, in a run that serves its starts. -/
theorem play_of_move {c : Config Memory Thread} {k : Bool} {t : Thread}
    {e : Effect Memory Thread Event} (ht : c.pool[i]? = some t)
    (he : program.move c i k t = some e)
    (hmac : (c.shared.macros t.macroId).Playable limit signals)
    (hplain : t.plain t.macroId = true) (hserved : servesStart t.macroId c (.step i k) = true) :
    ∃ a, t.PlayStep (c.shared.macros t.macroId) t.macroId i c.pool.length
        ⟨a, e.next, e.spawned, e.events⟩ ∧ a.apply t.macroId c.shared = some e.shared := by
  obtain ⟨a, hs, ha⟩ := step_of_program_move he
  refine ⟨a, ?_, ha⟩
  cases t with
  | reset m o p => simp [Thread.plain, Thread.macroId] at hplain
  | worker m o p =>
    -- a worker: the signal it delivers does not throw
    have hthrow : ∀ rest, p = .delivering rest → e.next = .worker m o (.breakTest rest) := by
      rintro rest rfl
      obtain rfl : k = true := by simpa [servesStart, ht, Thread.macroId] using hserved
      obtain ⟨mem, -, rfl⟩ : ∃ mem, Access.skip.apply m c.shared = some mem ∧
          ⟨mem, .worker m o (.breakTest rest), [], []⟩ = e := Option.map_eq_some_iff.mp he
      rfl
    generalize e.next = u, e.spawned = ts, e.events = ev at hs hthrow
    cases hs with
    | worker h =>
      refine h.play hmac (by simpa [Thread.plain, Thread.macroId] using hplain) ?_ ?_ o
      · rintro (rfl | rfl) <;> simpa [servesStart, ht, Thread.macroId] using hserved
      · rintro rest hp
        simpa using hthrow rest hp
  | call m p =>
    -- a start: the thread can be created, and what it asks for is there
    have hthrow : p = .start .spawn → e.next = .call m (.start .leave) := by
      rintro rfl
      obtain rfl : k = true := by simpa [servesStart, ht, Thread.macroId] using hserved
      obtain ⟨mem, -, rfl⟩ : ∃ mem,
          (Access.pushThread c.pool.length).apply m c.shared = some mem ∧
            ⟨mem, .call m (.start .leave), [.worker m (some i) .count],
              [.spawn m c.pool.length]⟩ = e := Option.map_eq_some_iff.mp he
      rfl
    generalize e.next = u, e.spawned = ts, e.events = ev at hs hthrow
    cases hs with
    | call h =>
      refine h.play hmac (by simpa [Thread.plain, Thread.macroId] using hplain) ?_ ?_ ?_ ?_
      · rintro rfl
        simpa [servesStart, ht, Thread.macroId] using hserved
      · rintro rfl
        simpa [servesStart, ht, Thread.macroId] using hserved
      · rintro rfl
        simpa [servesStart, ht, Thread.macroId] using hserved
      · intro hp
        simpa using hthrow hp

end Edges

/-! ## What they move -/

section Effects

variable {limit : ℕ} {signals : List (Option SignalId)} {mem mem' : Memory} {m : MacroId}
  {i w : ThreadId} {a : Access} {t : Thread} {mv : Move}

/-- The queue, where no entry is moved. -/
theorem Access.queued_of_keepsQueue (ha : a.apply m mem = some mem') (h : a.keepsQueue = true) :
    (mem'.macros m).queued = (mem.macros m).queued := by
  rw [apply_queued ha]
  cases a <;> first | rfl | cases h

namespace Thread.PlayStep

/-- The accesses of these steps: most of them keep the queue, and the others count it or store the
handle. -/
theorem access_cases (h : t.PlayStep (mem.macros m) m i w mv) : mv.access.keepsQueue = true ∨
    mv.access = .incQueued ∨ mv.access = .decQueued ∨ mv.access = .pushThread w := by
  cases h with
  | quiet hplain ha => exact .inl ha
  | put => exact .inr (.inl rfl)
  | take => exact .inr (.inr (.inl rfl))
  | spawn => exact .inr (.inr (.inr rfl))
  | pass | deliver => exact .inl rfl

/-- A limit that is in range stays. -/
theorem threadMax_eq (h : t.PlayStep (mem.macros m) m i w mv)
    (ha : mv.access.apply m mem = some mem') (hmac : (mem.macros m).Playable limit signals)
    (hlimit : mem.threadLimit = limit) :
    (mem'.macros m).threadMax = (mem.macros m).threadMax := by
  have hmax := Access.apply_threadMax ha
  have haccess := h.access_cases
  generalize mv.access = a at hmax haccess
  cases a with
  | clampThreadMax =>
    have hpos := hmac.threadMax
    have hle := hmac.threadMax_le
    rw [hmax, Macro.clampThreadMax, if_neg (by omega), if_neg (by omega)]
  | setThreadMax | assign => simp [Access.keepsQueue] at haccess
  | _ => exact hmax

/-- **Only `incQueued` raises the queue**, and only `decQueued` lowers it. -/
theorem queued_cases (h : t.PlayStep (mem.macros m) m i w mv)
    (ha : mv.access.apply m mem = some mem') :
    (mem'.macros m).queued = (mem.macros m).queued ∨
      t = .call m (.start .increment) ∧
        (mem'.macros m).queued = (mem.macros m).queued + 1 ∨
      0 < (mem.macros m).queued ∧ (mem'.macros m).queued = (mem.macros m).queued - 1 := by
  have hqueued := Access.apply_queued ha
  cases h with
  | quiet hplain hkeeps => exact .inl (Access.queued_of_keepsQueue ha hkeeps)
  | put => exact .inr (.inl ⟨rfl, hqueued⟩)
  | take h => exact .inr (.inr ⟨h, hqueued⟩)
  | pass | deliver | spawn => exact .inl hqueued

/-- **The macro stays playable**: nothing interrupts it, and its queue and its limit stay in
range. -/
theorem playable (h : t.PlayStep (mem.macros m) m i w mv)
    (ha : mv.access.apply m mem = some mem') (hmac : (mem.macros m).Playable limit signals)
    (hlimit : mem.threadLimit = limit)
    (hfits : t = .call m (.start .increment) → (mem.macros m).queued < (mem.macros m).threadMax) :
    (mem'.macros m).Playable limit signals := by
  have haccess := h.access_cases
  -- no step of a plain thread writes the configuration or the interruptor
  have hconfigures : mv.access.configures = false := by
    generalize mv.access = a at haccess
    cases a <;> simp_all [Access.keepsQueue, Access.configures]
  have hsame := Access.apply_sameConfig ha hconfigures
  have hv : (mem'.macros m).interruptor = (mem.macros m).interruptor := by
    have hwrites := Access.apply_interruptor ha
    generalize mv.access = a at haccess hwrites
    cases a <;> simp_all [Access.keepsQueue]
  have hmax := h.threadMax_eq ha hmac hlimit
  have hnonneg := hmac.queued
  have hle := hmac.queued_le
  refine ⟨hv.trans hmac.interruptor, hsame.sticky.trans hmac.sticky,
    hsame.signals.trans hmac.signals_eq, hmac.signals_ne, ?_, ?_, hmax ▸ hmac.threadMax,
    hmax ▸ hmac.threadMax_le, hmac.limit_lt⟩
  · rcases h.queued_cases ha with hq | ⟨-, hq⟩ | ⟨hpos, hq⟩ <;> omega
  · rw [hmax]
    rcases h.queued_cases ha with hq | ⟨ht, hq⟩ | ⟨hpos, hq⟩
    · omega
    · have hlt := hfits ht
      omega
    · omega

/-- **The entries come out even**: an entry that a start puts into the queue stays there until a
worker takes it, and a worker has it until it begins its pass; the start owes a worker for it. -/
theorem entries (h : t.PlayStep (mem.macros m) m i w mv)
    (ha : mv.access.apply m mem = some mem') :
    mv.events.countP (Event.isPass m) + (mem'.macros m).queued + mv.next.taken m + t.admitted m =
      mv.events.countP (Event.isSpawn m) + (mem.macros m).queued + t.taken m +
        mv.next.admitted m := by
  have hqueued := Access.apply_queued ha
  cases h with
  | quiet hplain hkeeps htaken hadmitted =>
    simp only [Access.queued_of_keepsQueue ha hkeeps, htaken, hadmitted, List.countP_nil]
  | put => simp [hqueued, CallPc.admitted, StartPc.admitted]
  | take => simp [hqueued, RunPc.owed]
  | deliver => simp [hqueued, RunPc.owed, Event.isPass, Event.isSpawn]
  | pass =>
    simp [hqueued, RunPc.owed, Event.isPass, Event.isSpawn]
    omega
  | spawn =>
    simp [hqueued, CallPc.admitted, StartPc.admitted, Event.isPass, Event.isSpawn]
    omega

/-- **The deliveries of a signal come out even**: a pass owes one for each place of it in the
list. -/
theorem deliveries (h : t.PlayStep (mem.macros m) m i w mv) (s : SignalId) :
    mv.events.countP (Event.delivers m s) + mv.next.remaining m s =
      mv.events.countP (Event.isPass m) * (mem.macros m).signals.count (some s) +
        t.remaining m s := by
  cases h with
  | quiet hplain hkeeps htaken hadmitted hremaining => simp [hremaining s]
  | pass => simp [RunPc.remaining, Event.delivers, Event.isPass]
  | @deliver o s' rest via =>
    by_cases hs : s' = s
    · simp [RunPc.remaining, Event.delivers, Event.isPass, hs]
      omega
    · simp [RunPc.remaining, Event.delivers, Event.isPass, hs]
  | put | take | spawn => simp [RunPc.remaining, Event.delivers, Event.isPass]

/-- **Somebody plays what is in the queue**: nobody turns away from a queue with an entry. -/
theorem plays_le (h : t.PlayStep (mem.macros m) m i w mv) (ha : mv.access.apply m mem = some mem')
    (hpos : 0 < (mem'.macros m).queued) :
    t.plays m ≤ mv.next.plays m + weight (Thread.plays m) mv.spawned ∧
      (0 < (mem.macros m).queued ∨ 0 < mv.next.plays m) := by
  have hqueued := Access.apply_queued ha
  cases h with
  | quiet hplain hkeeps htaken hadmitted hremaining hplays =>
    rw [Access.queued_of_keepsQueue ha hkeeps] at hpos
    rcases hplays with hle | hempty
    · exact ⟨by simpa using hle, .inl hpos⟩
    · omega
  | put =>
    exact ⟨by simp [CallPc.admitted, StartPc.admitted],
      .inr (by simp [CallPc.admitted, StartPc.admitted])⟩
  | take h => exact ⟨by simp [RunPc.plays], .inl h⟩
  | pass | deliver =>
    simp only at hqueued
    exact ⟨by simp [RunPc.plays], .inl (hqueued ▸ hpos)⟩
  | spawn =>
    simp only at hqueued
    exact ⟨by simp [CallPc.admitted, StartPc.admitted, RunPc.plays], .inl (hqueued ▸ hpos)⟩

/-- The threads stay plain: no step leads to a pause, an interrupt or a start that is turned
away. -/
theorem plain (h : t.PlayStep (mem.macros m) m i w mv) :
    mv.next.plain m = true ∧ ∀ u ∈ mv.spawned, u.plain m = true := by
  cases h with
  | quiet hplain => exact ⟨hplain, fun u hu => absurd hu List.not_mem_nil⟩
  | spawn => exact ⟨by simp [Thread.plain, CallPc.plain, StartPc.plain], by
      simp [Thread.plain, RunPc.plain]⟩
  | _ =>
    exact ⟨by simp [Thread.plain, CallPc.plain, StartPc.plain, RunPc.plain], fun u hu =>
      absurd hu List.not_mem_nil⟩

/-- A created worker has no entry, and delivers nothing yet. -/
theorem weight_spawned (h : t.PlayStep (mem.macros m) m i w mv) :
    weight (Thread.taken m) mv.spawned = 0 ∧ weight (Thread.admitted m) mv.spawned = 0 ∧
      ∀ s, weight (Thread.remaining m s) mv.spawned = 0 := by
  cases h <;> simp [RunPc.owed, RunPc.remaining]

/-- Who comes to the increment has compared the queue with the limit. -/
theorem fits (h : t.PlayStep (mem.macros m) m i w mv) (ha : mv.access.apply m mem = some mem')
    (hnext : .call m (.start .increment) = mv.next ∨ .call m (.start .increment) ∈ mv.spawned) :
    (mem'.macros m).queued < (mem.macros m).threadMax := by
  cases h with
  | quiet hplain hkeeps htaken hadmitted hremaining hplays hfits =>
    rw [Access.queued_of_keepsQueue ha hkeeps]
    exact hfits (hnext.resolve_right List.not_mem_nil).symm
  | _ => simp at hnext

end Thread.PlayStep

end Effects

/-! ## Runs -/

/-- **What holds of a macro that is started only**, at any time of the run that has shown `tr`. -/
structure Played (limit : ℕ) (signals : List (Option SignalId)) (m : MacroId) (tr : List Event)
    (c : Config Memory Thread) : Prop where
  playable : (c.shared.macros m).Playable limit signals
  plain : ∀ t ∈ c.pool, t.plain m = true
  /-- Who is about to put an entry into the queue has the mutex, and has compared. -/
  fits : ∀ i : ThreadId, c.pool[i]? = some (.call m (.start .increment)) →
    (c.shared.macros m).queued < (c.shared.macros m).threadMax
  entries : tr.countP (Event.isPass m) + (c.shared.macros m).queued +
      weight (Thread.taken m) c.pool =
    tr.countP (Event.isSpawn m) + weight (Thread.admitted m) c.pool
  deliveries : ∀ s, tr.countP (Event.delivers m s) + weight (Thread.remaining m s) c.pool =
    tr.countP (Event.isPass m) * signals.count (some s)
  /-- An entry in the queue will be looked at. -/
  plays : 0 < (c.shared.macros m).queued → 0 < weight (Thread.plays m) c.pool

section Runs

variable {limit : ℕ} {signals : List (Option SignalId)} {mem : Memory} {m : MacroId} {k : Bool}
  {i : ThreadId} {t : Thread} {e : Effect Memory Thread Event} {c : Config Memory Thread}
  {tr ev : List Event}

/-- **A call** on the macro is a `start`, which has no entry yet. -/
theorem Played.call (h : Played limit signals m tr c) (he : t.entry = some ev)
    (honly : t.only m (· = .start) false = true) :
    Played limit signals m (tr ++ ev) ⟨c.shared, c.pool ++ [t]⟩ := by
  have hplain : t.plain m = true := by
    rcases Thread.entry_cases he with ⟨m', rfl, -⟩ | ⟨m', rfl, -⟩ | ⟨m', pc, rfl, -, hpc⟩
    · simp [Thread.plain, RunPc.plain]
    · simp [Thread.plain, CallPc.plain, StartPc.plain]
    · cases hpc <;> simpa [Thread.only, Thread.plain, CallPc.kind, CallPc.plain] using honly
  -- a call shows a start at most, and holds no entry of the queue yet
  have hevents : ev.countP (Event.isPass m) = 0 ∧ ev.countP (Event.isSpawn m) = 0 ∧
      ∀ s, ev.countP (Event.delivers m s) = 0 := by
    rcases Thread.entry_cases he with ⟨m', -, rfl⟩ | ⟨m', -, rfl⟩ | ⟨m', pc, -, rfl, -⟩ <;>
      simp [Event.isPass, Event.isSpawn, Event.delivers]
  obtain ⟨hpass, hspawn, hdeliver⟩ := hevents
  have htaken : t.taken m = 0 := Thread.onMacro_of_entry he rfl rfl fun _ _ => rfl
  have hremaining : ∀ s, t.remaining m s = 0 := fun s =>
    Thread.onMacro_of_entry he rfl rfl fun _ _ => rfl
  have hadmitted : t.admitted m = 0 :=
    Thread.onMacro_of_entry he rfl rfl fun pc hpc => by cases hpc <;> rfl
  refine ⟨h.playable, forall_mem_concat h.plain hplain, fun j hj => ?_, ?_, fun s => ?_,
    fun hpos => ?_⟩
  · rcases getElem?_concat_cases hj with hold | ⟨-, rfl⟩
    · exact h.fits j hold
    · cases he
  · have hentries := h.entries
    simp only [List.countP_append, weight_append, weight_cons, weight_nil]
    omega
  · have hdeliveries := h.deliveries s
    simp only [List.countP_append, weight_append, weight_cons, weight_nil, hdeliver s, hpass,
      hremaining s]
    omega
  · have hplays := h.plays hpos
    rw [weight_append]
    omega

/-- **A step of another macro's thread** changes nothing about the macro. -/
theorem Played.step_of_ne (h : Played limit signals m tr c) (ht : c.pool[i]? = some t)
    (he : program.move c i k t = some e) (hm : t.macroId ≠ m) :
    Played limit signals m (tr ++ e.events) ⟨e.shared, c.pool.set i e.next ++ e.spawned⟩ := by
  obtain ⟨a, hs, -⟩ := step_of_program_move he
  have hmac : e.shared.macros m = c.shared.macros m := macros_of_ne he hm
  obtain ⟨hnext, hspawned⟩ := macroId_of_ne he hm
  have hplain : ∀ u : Thread, u.macroId ≠ m → u.plain m = true := fun u hu => by
    cases u <;> simp_all [Thread.plain, Thread.macroId]
  have hcount : ∀ p : Event → Bool, (∀ ev, p ev = true → ev.macroId? = some m) →
      (tr ++ e.events).countP p = tr.countP p := fun p hp => by
    rw [List.countP_append, show e.events.countP p = 0 from hs.countP_events_of_ne hp hm,
      Nat.add_zero]
  have hpass := hcount (Event.isPass m) fun ev hev => by
    cases ev <;> simp_all [Event.isPass, Event.macroId?]
  have hspawn := hcount (Event.isSpawn m) fun ev hev => by
    cases ev <;> simp_all [Event.isSpawn, Event.macroId?]
  have hdeliver := fun s => hcount (Event.delivers m s) fun ev hev => by
    cases ev <;> simp_all [Event.delivers, Event.macroId?]
  refine ⟨hmac ▸ h.playable, forall_mem_set_append h.plain (hplain _ hnext) fun u hu =>
    hplain u (hspawned u hu), fun j hj => ?_, ?_, fun s => ?_, ?_⟩
  · rw [hmac]
    rcases getElem?_set_append_cases hj with ⟨-, hu⟩ | ⟨-, hold⟩ | hnew
    · exact absurd (by rw [← hu]; rfl) hnext
    · exact h.fits j hold
    · exact absurd rfl (hspawned _ hnew)
  · rw [hmac, hpass, hspawn, weight_onMacro_of_ne ht he hm, weight_onMacro_of_ne ht he hm]
    exact h.entries
  · rw [hpass, hdeliver s, weight_onMacro_of_ne ht he hm]
    exact h.deliveries s
  · rw [hmac, weight_onMacro_of_ne ht he hm]
    exact h.plays

/-- **A step of the macro's own thread** keeps the books. -/
theorem Played.step (h : Played limit signals t.macroId tr c)
    (hlimit : c.shared.threadLimit = limit)
    (hlocked : (c.shared.macros t.macroId).locked.toNat =
      weight (Thread.holds t.macroId) c.pool)
    (ht : c.pool[i]? = some t) (he : program.move c i k t = some e)
    (hserved : servesStart t.macroId c (.step i k) = true) :
    Played limit signals t.macroId (tr ++ e.events)
      ⟨e.shared, c.pool.set i e.next ++ e.spawned⟩ := by
  obtain ⟨a, hplay, ha⟩ := play_of_move ht he h.playable
    (h.plain t (List.mem_of_getElem? ht)) hserved
  have hput : t = .call t.macroId (.start .increment) →
      (c.shared.macros t.macroId).queued < (c.shared.macros t.macroId).threadMax :=
    fun heq => h.fits i (heq ▸ ht)
  have hmac := hplay.playable ha h.playable hlimit hput
  have hmax := hplay.threadMax_eq ha h.playable hlimit
  obtain ⟨hnext, hspawned⟩ := hplay.plain
  obtain ⟨htaken, hadmitted, hremaining⟩ := hplay.weight_spawned
  simp only at hnext hspawned htaken hadmitted hremaining
  refine ⟨hmac, forall_mem_set_append h.plain hnext hspawned, fun j hj => ?_, ?_, fun s => ?_,
    fun hpos => ?_⟩
  · -- who puts an entry into the queue has the mutex, so that nobody else is about to
    show (e.shared.macros t.macroId).queued < (e.shared.macros t.macroId).threadMax
    rw [hmax]
    rcases getElem?_set_append_cases hj with ⟨-, hu⟩ | ⟨hji, hold⟩ | hnew
    · exact hplay.fits ha (.inl hu)
    · have hlt := h.fits j hold
      rcases hplay.queued_cases ha with hq | ⟨heq, -⟩ | ⟨-, hq⟩
      · omega
      · have hzero := holds_eq_zero_of_ne hlocked ht (by rw [heq]; exact Thread.onMacro_call _) hold
          hji
        rw [Thread.holds, Thread.onMacro_call] at hzero
        cases hzero
      · omega
    · exact hplay.fits ha (.inr hnew)
  · have hpool₁ := weight_set_append (Thread.taken t.macroId) e.next e.spawned ht
    have hpool₂ := weight_set_append (Thread.admitted t.macroId) e.next e.spawned ht
    have hentries := hplay.entries ha
    have hold := h.entries
    simp only [List.countP_append] at hentries ⊢
    omega
  · have hpool := weight_set_append (Thread.remaining t.macroId s) e.next e.spawned ht
    have hdeliveries := hplay.deliveries s
    have hold := h.deliveries s
    rw [h.playable.signals_eq] at hdeliveries
    simp only [List.countP_append, Nat.add_mul] at hdeliveries ⊢
    have := hremaining s
    omega
  · have hpool := weight_set_append (Thread.plays t.macroId) e.next e.spawned ht
    obtain ⟨hle, hplays⟩ := hplay.plays_le ha hpos
    show 0 < weight (Thread.plays t.macroId) (c.pool.set i e.next ++ e.spawned)
    simp only at hle hplays
    rcases hplays with hold | hnew
    · have := h.plays hold
      omega
    · have := le_weight (Thread.plays t.macroId) (mem_set_append_self e.next e.spawned ht)
      omega

/-- **The books are kept** in every state of a run that starts the macro only and serves every
start. -/
theorem played_of_run (hmem : mem.Settled) (hqueued : (mem.macros m).queued = 0)
    (hv : (mem.macros m).interruptor = .continue) (hsticky : (mem.macros m).sticky = false)
    (hsignals : (mem.macros m).signals ≠ [])
    (h : program.Run (fun c l => fixedLimit l ∧ onlyCalls m (· = .start) false l ∧
      servesStart m c l) (initial mem) tr c) :
    Played mem.threadLimit (mem.macros m).signals m tr c := by
  -- the limit does not change, and the mutex is held by one thread at most
  have hrun := h.and_invariant (I := fun c => c.shared.threadLimit = mem.threadLimit ∧
      (c.shared.macros m).locked.toNat = weight (Thread.holds m) c.pool) fun h =>
    ⟨threadLimit_of_run (fun _ _ ok => ok.1) h, locked_eq_weight m (hmem.macros m).locked h⟩
  have hmac : (mem.macros m).Playable mem.threadLimit (mem.macros m).signals :=
    ⟨hv, hsticky, rfl, hsignals, (hmem.macros m).queued, (hmem.macros m).queued_le,
      (hmem.macros m).threadMax, (hmem.macros m).threadMax_le, hmem.limit⟩
  refine Machine.Run.invariant (P := fun tr c =>
    Played mem.threadLimit (mem.macros m).signals m tr c)
    ⟨hmac, by simp, by simp, ?_, fun _ => ?_, ?_⟩ ?_ ?_ hrun
  · simp [hqueued]
  · simp
  · simp [hqueued]
  · rintro tr c t ev hplayed ⟨⟨-, honly, -⟩, -⟩ he
    exact hplayed.call he honly
  · rintro tr c i k t e hplayed ⟨⟨-, -, hserved⟩, hlimit, hlocked⟩ ht he
    by_cases hm : t.macroId = m
    · subst hm
      exact hplayed.step hlimit hlocked ht he hserved
    · exact hplayed.step_of_ne ht he hm

/-- A thread that has ended has no entry, delivers nothing and will not look at the queue. -/
theorem Thread.idle_of_ended_or (h : t.macroId = m → t.ended = true) : t.taken m = 0 ∧
    t.admitted m = 0 ∧ t.plays m = 0 ∧ ∀ s, t.remaining m s = 0 := by
  by_cases hm : t.macroId = m
  · subst hm
    have hended := h rfl
    cases t with
    | worker m o p =>
      cases p with
      | finished => simp [Thread.macroId, RunPc.owed, RunPc.plays, RunPc.remaining]
      | _ => cases hended
    | reset m o p => simp [Thread.macroId]
    | call m p =>
      cases p with
      | returned => simp [Thread.macroId, CallPc.admitted]
      | _ => cases hended
  · exact ⟨onMacro_of_ne hm, onMacro_of_ne hm, onMacro_of_ne hm, fun _ => onMacro_of_ne hm⟩

/-- **The books when all threads have ended**: nothing is left to take, to send or to play. -/
theorem Played.of_ended (h : Played limit signals m tr c)
    (hended : ∀ t ∈ c.pool, t.macroId = m → t.ended = true) :
    tr.countP (Event.isPass m) = tr.countP (Event.isSpawn m) ∧
      (∀ s, tr.countP (Event.delivers m s) =
        tr.countP (Event.isSpawn m) * signals.count (some s)) ∧
      (c.shared.macros m).queued = 0 := by
  have hidle := fun t ht => Thread.idle_of_ended_or (hended t ht)
  have htaken : weight (Thread.taken m) c.pool = 0 :=
    weight_eq_zero_iff.mpr fun t ht => (hidle t ht).1
  have hadmitted : weight (Thread.admitted m) c.pool = 0 :=
    weight_eq_zero_iff.mpr fun t ht => (hidle t ht).2.1
  have hplays : weight (Thread.plays m) c.pool = 0 :=
    weight_eq_zero_iff.mpr fun t ht => (hidle t ht).2.2.1
  have hremaining : ∀ s, weight (Thread.remaining m s) c.pool = 0 := fun s =>
    weight_eq_zero_iff.mpr fun t ht => (hidle t ht).2.2.2 s
  -- an entry that is left would be somebody's to play
  have hempty : (c.shared.macros m).queued = 0 := by
    by_contra hne
    have hnonneg := h.playable.queued
    have hsome := h.plays (by omega)
    omega
  have hpasses : tr.countP (Event.isPass m) = tr.countP (Event.isSpawn m) := by
    have hentries := h.entries
    omega
  refine ⟨hpasses, fun s => ?_, hempty⟩
  have hdeliveries := h.deliveries s
  rwa [hremaining s, hpasses, Nat.add_zero] at hdeliveries

/-- **Every start is played once.** A settled, continuing macro that is not sticky and has signals
is started only, and no step of it turns a start away, loses an entry or throws: when all its
threads have ended, the list has been sent once for each worker a start has created, each signal has
been delivered as often as the list has it in so many passes, and the queue is empty. -/
theorem played_of_starts (hmem : mem.Settled) (hqueued : (mem.macros m).queued = 0)
    (hv : (mem.macros m).interruptor = .continue) (hsticky : (mem.macros m).sticky = false)
    (hsignals : (mem.macros m).signals ≠ [])
    (h : program.Run (fun c l => fixedLimit l ∧ onlyCalls m (· = .start) false l ∧
      servesStart m c l) (initial mem) tr c)
    (hended : ∀ t ∈ c.pool, t.macroId = m → t.ended = true) :
    tr.countP (Event.isPass m) = tr.countP (Event.isSpawn m) ∧
      (∀ s, tr.countP (Event.delivers m s) =
        tr.countP (Event.isSpawn m) * (mem.macros m).signals.count (some s)) ∧
      (c.shared.macros m).queued = 0 :=
  (played_of_run hmem hqueued hv hsticky hsignals h).of_ended hended

end Runs

/-- Two starts that overlap, with a list that names a signal twice: the second worker ends without
a pass, the first one makes both. -/
theorem played_of_starts_two : ∃ tr c,
    program.Run (fun c l => fixedLimit l ∧ onlyCalls 0 (· = .start) false l ∧ servesStart 0 c l)
      (initial (.ofMacro
        { interruptor := .continue, context := some 0, threadMax := 2,
          signals := [some 7, some 7] })) tr c ∧
    tr.countP (Event.isSpawn 0) = 2 ∧ tr.countP (Event.isPass 0) = 2 ∧
    tr.countP (Event.delivers 0 7) = 4 := by
  obtain ⟨tr, c, h, hp⟩ := Machine.Run.exists_of_exec
    (fun c l => fixedLimit l && (onlyCalls 0 (· = .start) false l && servesStart 0 c l))
    (initial (.ofMacro
      { interruptor := .continue, context := some 0, threadMax := 2,
        signals := [some 7, some 7] }))
    (startTwice 12 ++ List.replicate 47 (.step 1 true) ++ List.replicate 11 (.step 3 true))
    (M := program) (P := fun tr c => (∀ t ∈ c.pool, t.ended = true) ∧
      tr.countP (Event.isSpawn 0) = 2) (by decide +kernel)
  obtain ⟨hended, hspawn⟩ := of_decide_eq_true hp
  have hrun : program.Run (fun c l => fixedLimit l ∧ onlyCalls 0 (· = .start) false l ∧
      servesStart 0 c l) _ tr c := h.mono fun c l ok => by
    simp only [Bool.and_eq_true] at ok
    exact ok
  have hmac : Macro.Settled 0x10
      { interruptor := .continue, context := some 0, threadMax := 2,
        signals := [some 7, some 7] } :=
    ⟨by decide, rfl, rfl, by decide, by decide, by decide, by decide⟩
  -- two passes of a list that names the signal twice
  obtain ⟨hpass, hdeliver, -⟩ := played_of_starts ⟨by decide, rfl, fun _ => hmac⟩ rfl rfl rfl
    (by decide) hrun fun t ht _ => hended t ht
  refine ⟨tr, c, hrun, hspawn, hpass.trans hspawn, (hdeliver 7).trans ?_⟩
  rw [hspawn]
  rfl

end Libmacro
