import Eva01.Lib.Held
import Eva01.Log.Logger

/-!
Threads that log at the same time.

`Logger::log` holds the mutex of the logger while it goes over the appenders, and each appender
holds its own while it writes. An event is written to a file and to `std::cout` item by item, and to
a string stream in one piece. A logger that `getLogger` makes has an appender to `std::cout` of its
own, with a mutex of its own; so pieces of two loggers may alternate there (`torn_line`).

What does hold, in every interleaving (`logging_in_order`): each logger takes the events in one
order, in which those of a thread are in the order of its statements; it hands every event to all
its appenders before it takes the next; and what has gone through an appender are whole messages.

Levels, formatters and the lists of appenders stay what they are. Besides what the program keeps,
the state has a record of the order in which loggers took events (`order`) and of the messages that
have been written (`done`), on which no step depends.

Types: `T` for the threads.
-/

namespace Eva01.Log.Concurrent

open Eva01.Lib Eva01.Lib.Runs

variable {T : Type*}

/-! ### The machine -/

/-- The loggers and the appenders. -/
structure Config where
  strftime : List Char → ℕ → List Char
  logger : ℕ → Logger
  appender : ℕ → LogAppender

namespace Config

/-- The level of the logger allows the event. -/
def passes (C : Config) (g : ℕ) (e : LogEvent) : Bool := (C.logger g).level.toNat ≤ e.level.toNat

/-- The items that an appender writes at once, one piece behind the other; none if it has no
formatter. -/
def pieces (C : Config) (p : ℕ) (e : LogEvent) : Option (List (List Item)) :=
  let a := C.appender p
  if a.level.toNat ≤ e.level.toNat then
    a.formatter.map fun f =>
      match a.type with
      | .stream => [f.items]
      | .stdout | .file => f.items.map fun i => [i]
  else some []

/-- What is written of a piece. -/
def text (C : Config) (e : LogEvent) (piece : List Item) : List Char :=
  ({ items := piece } : LogFormatter).text C.strftime e

/-- The whole message. -/
def message (C : Config) (p : ℕ) (e : LogEvent) : List Char :=
  ((C.pieces p e).getD []).flatMap (C.text e)

/-- The events for the logger `g` that it takes. -/
def accepted (C : Config) (g : ℕ) (script : List (ℕ × LogEvent)) : List LogEvent :=
  (script.filter fun x => x.1 = g ∧ C.passes g x.2).map Prod.snd

end Config

/-- Where a thread is in a log statement. -/
inductive Pc
  | idle
  /-- Behind the test of `EVA_LOG_LEVEL`; before the mutex of the logger. -/
  | lock (g : ℕ) (e : LogEvent)
  /-- In the loop of `Logger::log`, with the appenders to come. -/
  | loop (g : ℕ) (e : LogEvent) (ps : List ℕ)
  /-- In `log` of the appender `p`, with the pieces to come. -/
  | write (g : ℕ) (e : LogEvent) (ps : List ℕ) (p : ℕ) (left : List (List Item))

/-- A message that has been written. -/
structure Record (T : Type*) where
  thread : T
  logger : ℕ
  appender : ℕ
  event : LogEvent

structure State (T : Type*) where
  /-- The statements to come. -/
  todo : T → List (ℕ × LogEvent)
  pc : T → Pc := fun _ => .idle
  /-- Who has `m_mtx` of a logger. -/
  loggerLock : ℕ → Option T := fun _ => none
  /-- Who has `m_mtx` of an appender. -/
  appenderLock : ℕ → Option T := fun _ => none
  /-- What has been written, with the appender. -/
  out : List (ℕ × List Char) := []
  order : ℕ → List (T × LogEvent) := fun _ => []
  done : List (Record T) := []

variable [DecidableEq T]

namespace State

def goto (s : State T) (t : T) (pc : Pc) : State T := { s with pc := Function.update s.pc t pc }

/-- The next step of the thread `t`. -/
def step (C : Config) (s : State T) (t : T) : Option (State T) :=
  match s.pc t with
  | .idle =>
      match s.todo t with
      | [] => none
      | (g, e) :: rest =>
          some ({ s with todo := Function.update s.todo t rest }.goto t
            (if C.passes g e then .lock g e else .idle))
  | .lock g e =>
      if (s.loggerLock g).isNone then
        some ({ s with loggerLock := Function.update s.loggerLock g (some t)
                       order := Function.update s.order g (s.order g ++ [(t, e)]) }.goto t
          (.loop g e (if C.passes g e then (C.logger g).appenders else [])))
      else none
  | .loop g _ [] =>
      some ({ s with loggerLock := Function.update s.loggerLock g none }.goto t .idle)
  | .loop g e (p :: ps) =>
      if (s.appenderLock p).isNone then
        -- a call through a null `m_formatter` is not defined
        (C.pieces p e).map fun left =>
          { s with appenderLock := Function.update s.appenderLock p (some t) }.goto t
            (.write g e ps p left)
      else none
  | .write g e ps p [] =>
      some ({ s with appenderLock := Function.update s.appenderLock p none
                     done := s.done ++ [(⟨t, g, p, e⟩ : Record T)] }.goto t (.loop g e ps))
  | .write g e ps p (piece :: left) =>
      match ({ items := piece } : LogFormatter).format C.strftime e with
      | .ok text => some ({ s with out := s.out ++ [(p, text)] }.goto t (.write g e ps p left))
      | .error _ => none

/-- What has gone through an appender. -/
def through (s : State T) (p : ℕ) : List Char :=
  (s.out.filter fun x => x.1 = p).flatMap Prod.snd

/-- What has been written to `std::cout`. -/
def cout (C : Config) (s : State T) : List Char :=
  (s.out.filter fun x => (C.appender x.1).type = .stdout).flatMap Prod.snd

/-- No thread is in a statement. -/
def Quiet (s : State T) : Prop := ∀ t, s.pc t = .idle

/-- The messages of an appender. -/
def messages (s : State T) (p : ℕ) : List (Record T) := s.done.filter fun r => r.appender = p

/-- The messages that come from a logger. -/
def handed (s : State T) (g : ℕ) : List (Record T) := s.done.filter fun r => r.logger = g

/-- The events that a logger has taken from a thread. -/
def taken (s : State T) (g : ℕ) (t : T) : List LogEvent :=
  ((s.order g).filter fun x => x.1 = t).map Prod.snd

end State

/-- An event goes from the logger to all its appenders. -/
def Config.round (C : Config) (g : ℕ) (x : T × LogEvent) : List (Record T) :=
  (C.logger g).appenders.map fun p => ⟨x.1, g, p, x.2⟩

/-! ### What a step can do -/

inductive Stepped (C : Config) (s : State T) (t : T) : State T → Prop
  | skip {g : ℕ} {e : LogEvent} {rest : List (ℕ × LogEvent)} :
      s.pc t = .idle → s.todo t = (g, e) :: rest → C.passes g e = false →
      Stepped C s t ({ s with todo := Function.update s.todo t rest }.goto t .idle)
  | begin {g : ℕ} {e : LogEvent} {rest : List (ℕ × LogEvent)} :
      s.pc t = .idle → s.todo t = (g, e) :: rest → C.passes g e = true →
      Stepped C s t ({ s with todo := Function.update s.todo t rest }.goto t (.lock g e))
  | lock {g : ℕ} {e : LogEvent} :
      s.pc t = .lock g e → s.loggerLock g = none →
      Stepped C s t ({ s with loggerLock := Function.update s.loggerLock g (some t)
                              order := Function.update s.order g (s.order g ++ [(t, e)]) }.goto t
        (.loop g e (if C.passes g e then (C.logger g).appenders else [])))
  | unlock {g : ℕ} {e : LogEvent} :
      s.pc t = .loop g e [] →
      Stepped C s t ({ s with loggerLock := Function.update s.loggerLock g none }.goto t .idle)
  | enter {g p : ℕ} {e : LogEvent} {ps : List ℕ} {left : List (List Item)} :
      s.pc t = .loop g e (p :: ps) → s.appenderLock p = none → C.pieces p e = some left →
      Stepped C s t ({ s with appenderLock := Function.update s.appenderLock p (some t) }.goto t
        (.write g e ps p left))
  | leave {g p : ℕ} {e : LogEvent} {ps : List ℕ} :
      s.pc t = .write g e ps p [] →
      Stepped C s t ({ s with appenderLock := Function.update s.appenderLock p none
                              done := s.done ++ [(⟨t, g, p, e⟩ : Record T)] }.goto t (.loop g e ps))
  | write {g p : ℕ} {e : LogEvent} {ps : List ℕ} {piece : List Item} {left : List (List Item)} :
      s.pc t = .write g e ps p (piece :: left) →
      Stepped C s t ({ s with out := s.out ++ [(p, C.text e piece)] }.goto t (.write g e ps p left))

theorem step_inv {C : Config} {s s' : State T} {t : T} (h : s.step C t = some s') :
    Stepped C s t s' := by
  unfold State.step at h
  split at h
  · rename_i hpc
    split at h
    · cases h
    · rename_i g e rest htodo
      cases h
      cases hp : C.passes g e with
      | true => exact .begin hpc htodo hp
      | false => exact .skip hpc htodo hp
  · rename_i hpc
    split at h <;> cases h
    exact .lock hpc (Option.isNone_iff_eq_none.1 ‹_›)
  · rename_i hpc
    cases h
    exact .unlock hpc
  · rename_i hpc
    split at h
    · rename_i hfree
      obtain ⟨left, hleft, rfl⟩ := Option.map_eq_some_iff.1 h
      exact .enter hpc (Option.isNone_iff_eq_none.1 hfree) hleft
    · cases h
  · rename_i hpc
    cases h
    exact .leave hpc
  · rename_i g e ps p piece left hpc
    split at h
    · rename_i text htext
      cases h
      have : text = C.text e piece := by rw [Config.text, LogFormatter.text, htext]
      rw [this]
      exact .write hpc
    · cases h

/-! ### The invariant -/

namespace Pc

/-- The logger whose mutex the thread has. -/
def logger : Pc → Option ℕ
  | .loop g _ _ | .write g _ _ _ _ => some g
  | _ => none

/-- The appender whose mutex the thread has. -/
def appender : Pc → Option ℕ
  | .write _ _ _ p _ => some p
  | _ => none

/-- The event that the thread is about to hand to a logger. -/
def ahead (g : ℕ) : Pc → List LogEvent
  | .lock g' e => if g' = g then [e] else []
  | _ => []

/-- The message that the thread is writing. -/
def writing (t : T) : Pc → List (Record T)
  | .write g e _ p _ => [⟨t, g, p, e⟩]
  | _ => []

/-- What it has not written of it. -/
def unwritten (C : Config) : Pc → List Char
  | .write _ e _ _ left => left.flatMap (C.text e)
  | _ => []

/-- What the round that the thread is in has not done. -/
def rest (t : T) : Pc → List (Record T)
  | .loop g e ps => ps.map fun p => ⟨t, g, p, e⟩
  | .write g e ps p _ => ⟨t, g, p, e⟩ :: ps.map fun p => ⟨t, g, p, e⟩
  | _ => []

end Pc

namespace State

/-- The events of a thread for a logger: those that it took, and those to come. -/
def view (C : Config) (s : State T) (g : ℕ) (t : T) : List LogEvent :=
  s.taken g t ++ ((s.pc t).ahead g ++ C.accepted g (s.todo t))

/-- The messages of a logger, with the rest of the round that is under way. -/
def served (s : State T) (g : ℕ) : List (Record T) :=
  s.handed g ++ (s.loggerLock g).elim [] fun t => (s.pc t).rest t

/-- The messages of an appender, with the one that is being written. -/
def begun (s : State T) (p : ℕ) : List (Record T) :=
  s.messages p ++ (s.appenderLock p).elim [] fun t => (s.pc t).writing t

/-- What has gone through an appender, with what is still to be written of its message. -/
def written (C : Config) (s : State T) (p : ℕ) : List Char :=
  s.through p ++ (s.appenderLock p).elim [] fun t => (s.pc t).unwritten C

end State

structure Inv (C : Config) (script : T → List (ℕ × LogEvent)) (s : State T) : Prop where
  passed : ∀ t g e, s.pc t = .lock g e → C.passes g e = true
  loggers : Held.Agree Pc.logger s.loggerLock s.pc
  appenders : Held.Agree Pc.appender s.appenderLock s.pc
  threads : ∀ g t, s.view C g t = C.accepted g (script t)
  rounds : ∀ g, s.served g = (s.order g).flatMap (C.round g)
  texts : ∀ p, s.written C p = (s.begun p).flatMap fun r => C.message p r.event

section Step

variable {C : Config} {script : T → List (ℕ × LogEvent)} {s s' : State T} {t u : T} {g p : ℕ}
  {e : LogEvent} {ps : List ℕ}

lemma Stepped.pc_of_ne (h : Stepped C s t s') (hu : u ≠ t) : s'.pc u = s.pc u := by
  cases h <;> exact Function.update_of_ne hu _ _

lemma Stepped.loggers (h : Stepped C s t s') (hs : Held.Agree Pc.logger s.loggerLock s.pc) :
    Held.Agree Pc.logger s'.loggerLock s'.pc := by
  cases h with
  | skip hpc | begin hpc | enter hpc | leave hpc | write hpc =>
    exact hs.keep (congrArg Pc.logger hpc).symm
  | lock hpc hfree => exact hs.acquire hfree (by rw [hpc]; rfl) rfl
  | unlock hpc => exact hs.release (by rw [hpc]; rfl) rfl

lemma Stepped.appenders (h : Stepped C s t s') (hs : Held.Agree Pc.appender s.appenderLock s.pc) :
    Held.Agree Pc.appender s'.appenderLock s'.pc := by
  cases h with
  | skip hpc | begin hpc | lock hpc | unlock hpc | write hpc =>
    exact hs.keep (congrArg Pc.appender hpc).symm
  | enter hpc hfree => exact hs.acquire hfree (by rw [hpc]; rfl) rfl
  | leave hpc => exact hs.release (by rw [hpc]; rfl) rfl

lemma Config.accepted_cons (g' : ℕ) {rest : List (ℕ × LogEvent)} :
    C.accepted g ((g', e) :: rest) =
      (if g' = g ∧ C.passes g' e = true then [e] else []) ++ C.accepted g rest := by
  unfold Config.accepted
  by_cases hg : g' = g
  · subst hg
    cases hp : C.passes g' e <;> simp [hp]
  · simp [hg]

/-- **The events of a thread only move**: from the statements to come to where the thread is, and from
there to the logger. -/
lemma Stepped.view (h : Stepped C s t s') (g : ℕ) (u : T) : s'.view C g u = s.view C g u := by
  by_cases hu : u = t
  · subst hu
    unfold State.view
    cases h with
    | skip hpc htodo hp =>
      rw [hpc, htodo, Config.accepted_cons, hp]
      simp [State.goto, Pc.ahead, State.taken]
    | @begin g' e rest hpc htodo hp =>
      rw [hpc, htodo, Config.accepted_cons, hp]
      by_cases hg : g' = g <;> simp [State.goto, Pc.ahead, State.taken, hg]
    | @lock g' e hpc hfree =>
      rw [hpc]
      by_cases hg : g = g'
      · subst hg
        simp [State.goto, Pc.ahead, State.taken]
      · simp [State.goto, Pc.ahead, State.taken, Function.update_of_ne hg, Ne.symm hg]
    | unlock hpc | enter hpc | leave hpc | write hpc =>
      rw [hpc]
      simp [State.goto, Pc.ahead, State.taken]
  · unfold State.view
    rw [h.pc_of_ne hu]
    cases h with
    | skip | begin => simp [State.goto, State.taken, Function.update_of_ne hu]
    | @lock g' e hpc hfree =>
      by_cases hg : g = g'
      · subst hg
        simp [State.goto, State.taken, Ne.symm hu]
      · simp [State.goto, State.taken, Function.update_of_ne hg]
    | unlock | enter | leave | write => rfl

/-- **A logger**: it takes an event with its round, and every other step only moves messages of the
round to those that are written. -/
lemma Stepped.served (h : Stepped C s t s') (hpass : ∀ g e, s.pc t = .lock g e → C.passes g e = true)
    (hs : Held.Agree Pc.logger s.loggerLock s.pc) (g : ℕ)
    (hround : s.served g = (s.order g).flatMap (C.round g)) :
    s'.served g = (s'.order g).flatMap (C.round g) := by
  have hother : ∀ {s₁ : State T} {pc : Pc}, s₁.pc = Function.update s.pc t pc →
      s₁.loggerLock g = s.loggerLock g → s₁.order g = s.order g → s₁.handed g = s.handed g →
      (s.loggerLock g = some t → pc.rest t = (s.pc t).rest t) →
      s₁.served g = (s₁.order g).flatMap (C.round g) := by
    intro s₁ pc hpc hlock horder hhanded hsame
    have hrest : ((s.loggerLock g).elim [] fun u => (Function.update s.pc t pc u).rest u) =
        (s.loggerLock g).elim [] fun u => (s.pc u).rest u :=
      Held.elim_update (s.loggerLock g) (fun (pc : Pc) u => pc.rest u) hsame
    unfold State.served at hround ⊢
    rw [hpc, hlock, horder, hhanded, hrest, hround]
  -- the thread has the lock of one logger only, or of none
  have hmine : ∀ {k : Option ℕ} {P : Prop}, (s.pc t).logger = k → k ≠ some g →
      s.loggerLock g = some t → P := by
    rintro k P rfl hk hg
    exact absurd ((hs g t).1 hg) hk
  cases h with
  | skip hpc | begin hpc =>
    exact hother rfl rfl rfl rfl (hmine (congrArg Pc.logger hpc) (by simp [Pc.logger]))
  | @lock g' e hpc hfree =>
    by_cases hg : g = g'
    · subst hg
      have hbefore : s.handed g = (s.order g).flatMap (C.round g) := by
        simpa [State.served, hfree] using hround
      simp [State.served, State.goto, hpass g e hpc, Pc.rest, ← hbefore, Config.round, State.handed]
    · exact hother rfl (Function.update_of_ne hg _ _) (Function.update_of_ne hg _ _) rfl
        (hmine (congrArg Pc.logger hpc) (by simp [Pc.logger]))
  | @unlock g' e hpc =>
    by_cases hg : g = g'
    · subst hg
      have hlock : s.loggerLock g = some t := (hs g t).2 (congrArg Pc.logger hpc)
      simpa [State.served, State.goto, State.handed, hlock, hpc, Pc.rest] using hround
    · exact hother rfl (Function.update_of_ne hg _ _) rfl rfl fun _ => (congrArg (Pc.rest t) hpc).symm
  | enter hpc | write hpc => exact hother rfl rfl rfl rfl fun _ => (congrArg (Pc.rest t) hpc).symm
  | @leave g' p e ps hpc =>
    by_cases hg : g = g'
    · subst hg
      have hlock : s.loggerLock g = some t := (hs g t).2 (congrArg Pc.logger hpc)
      simpa [State.served, State.goto, State.handed, hlock, hpc, Pc.rest] using hround
    · refine hother rfl rfl rfl ?_ (hmine (congrArg Pc.logger hpc) ?_)
      · simp [State.goto, State.handed, Ne.symm hg]
      · simpa [Pc.logger] using Ne.symm hg

/-- **An appender**: it begins a message with all that it will write, and every other step only
moves text from what is to be written to what is. -/
lemma Stepped.texts (h : Stepped C s t s') (hs : Held.Agree Pc.appender s.appenderLock s.pc) (p : ℕ)
    (htext : s.written C p = (s.begun p).flatMap fun r => C.message p r.event) :
    s'.written C p = (s'.begun p).flatMap fun r => C.message p r.event := by
  -- a move of a thread that has not the lock of the appender
  have hother : ∀ {s₁ : State T} {pc : Pc} {k : Option ℕ}, s₁.pc = Function.update s.pc t pc →
      s₁.appenderLock p = s.appenderLock p → s₁.through p = s.through p →
      s₁.messages p = s.messages p → (s.pc t).appender = k → k ≠ some p →
      s₁.written C p = (s₁.begun p).flatMap fun r => C.message p r.event := by
    rintro s₁ pc k hpc hlock hthrough hmessages rfl hk
    have hmine : ∀ {P : Prop}, s.appenderLock p = some t → P := fun hp =>
      absurd ((hs p t).1 hp) hk
    have hun : ((s.appenderLock p).elim [] fun u => (Function.update s.pc t pc u).unwritten C) =
        (s.appenderLock p).elim [] fun u => (s.pc u).unwritten C :=
      Held.elim_update (s.appenderLock p) (fun (pc : Pc) _ => pc.unwritten C) hmine
    have hwr : ((s.appenderLock p).elim [] fun u => (Function.update s.pc t pc u).writing u) =
        (s.appenderLock p).elim [] fun u => (s.pc u).writing u :=
      Held.elim_update (s.appenderLock p) (fun (pc : Pc) u => pc.writing u) hmine
    unfold State.written State.begun at htext ⊢
    rw [hpc, hlock, hthrough, hmessages, hun, hwr]
    exact htext
  cases h with
  | skip hpc | begin hpc | lock hpc | unlock hpc =>
    exact hother rfl rfl rfl rfl (congrArg Pc.appender hpc) (by simp [Pc.appender])
  | @enter g p' e ps left hpc hfree hleft =>
    by_cases hp : p = p'
    · subst hp
      have hbefore : s.through p = (s.messages p).flatMap fun r => C.message p r.event := by
        simpa [State.written, State.begun, hfree] using htext
      have hmsg : left.flatMap (C.text e) = C.message p e := by rw [Config.message, hleft]; rfl
      simp only [State.through, State.messages] at hbefore
      simp [State.written, State.begun, State.goto, Pc.unwritten, Pc.writing, State.messages,
        State.through, hbefore, hmsg]
    · exact hother rfl (Function.update_of_ne hp _ _) rfl rfl (congrArg Pc.appender hpc)
        (by simp [Pc.appender])
  | @leave g p' e ps hpc =>
    by_cases hp : p = p'
    · subst hp
      have hlock : s.appenderLock p = some t := (hs p t).2 (congrArg Pc.appender hpc)
      simpa [State.written, State.begun, State.goto, State.through, State.messages, hlock, hpc,
        Pc.unwritten, Pc.writing] using htext
    · refine hother rfl (Function.update_of_ne hp _ _) rfl ?_ (congrArg Pc.appender hpc)
        (by simpa [Pc.appender] using Ne.symm hp)
      simp [State.goto, State.messages, Ne.symm hp]
  | @write g p' e ps piece left hpc =>
    by_cases hp : p = p'
    · subst hp
      have hlock : s.appenderLock p = some t := (hs p t).2 (congrArg Pc.appender hpc)
      simpa [State.written, State.begun, State.goto, State.through, State.messages, hlock, hpc,
        Pc.unwritten, Pc.writing] using htext
    · refine hother rfl rfl ?_ rfl (congrArg Pc.appender hpc)
        (by simpa [Pc.appender] using Ne.symm hp)
      simp [State.goto, State.through, Ne.symm hp]

lemma Stepped.passed (h : Stepped C s t s') (hs : ∀ t g e, s.pc t = .lock g e → C.passes g e = true)
    (u : T) (g : ℕ) (e : LogEvent) (hu : s'.pc u = .lock g e) : C.passes g e = true := by
  by_cases hut : u = t
  · subst hut
    cases h with
    | @begin g' e' rest hpc htodo hp =>
      have heq : Pc.lock g' e' = Pc.lock g e := (Function.update_self _ _ _).symm.trans hu
      cases heq
      exact hp
    | skip | lock | unlock | enter | leave | write =>
      have heq := (Function.update_self _ _ _).symm.trans hu
      cases heq
  · rw [h.pc_of_ne hut] at hu
    exact hs u g e hu

lemma Inv.step (h : Inv C script s) (hs : Stepped C s t s') : Inv C script s' where
  passed := hs.passed h.passed
  loggers := hs.loggers h.loggers
  appenders := hs.appenders h.appenders
  threads g u := (hs.view g u).trans (h.threads g u)
  rounds g := hs.served (h.passed t) h.loggers g (h.rounds g)
  texts p := hs.texts h.appenders p (h.texts p)

lemma Inv.init : Inv C script { todo := script } where
  passed t g e h := by cases h
  loggers k t := ⟨(fun h => by cases h), (fun h => by cases h)⟩
  appenders k t := ⟨(fun h => by cases h), (fun h => by cases h)⟩
  threads g t := rfl
  rounds g := rfl
  texts p := rfl

lemma text_items {items : List Item} {ss text : List Char}
    (h : items.foldlM (fun ss i => (i.format C.strftime e).map (ss ++ ·)) ss = .ok text) :
    text = ss ++ items.flatMap fun i => C.text e [i] := by
  induction items generalizing ss with
  | nil =>
    cases h
    simp
  | cons i items ih =>
    obtain ⟨ss', hi, hitems⟩ := foldlM_cons_eq_ok.1 h
    obtain ⟨text', htext, rfl⟩ := map_eq_ok.1 hi
    have hpiece : C.text e [i] = text' := by
      simp [Config.text, LogFormatter.text, LogFormatter.format, htext, Except.map]
    rw [ih hitems, List.flatMap_cons, hpiece, List.append_assoc]

theorem message_eq_share {f : LogFormatter} {text : List Char}
    (hf : (C.appender p).formatter = some f) (htext : f.format C.strftime e = .ok text) :
    C.message p e = (C.appender p).share C.strftime f e := by
  have hwhole : f.text C.strftime e = text := by rw [LogFormatter.text, htext]
  have hitems : f.items.flatMap (fun i => C.text e [i]) = text := (text_items htext).symm
  unfold Config.message Config.pieces LogAppender.share
  by_cases hlevel : (C.appender p).level.toNat ≤ e.level.toNat
  · cases htype : (C.appender p).type with
    | stream => simp [hlevel, hf, htype, Config.text]
    | stdout | file => simp [hlevel, hf, htype, List.flatMap_map, hitems, hwhole]
  · simp [hlevel]

end Step

/-! ### Every interleaving -/

section Runs

variable {C : Config} {script : T → List (ℕ × LogEvent)} {s : State T}

lemma Inv.of_reach (h : Reach (State.step C) Free { todo := script } s) : Inv C script s :=
  h.inv Inv.init fun _ hx _ hs => hx.step (step_inv hs)

omit [DecidableEq T] in
/-- With one appender to `std::cout` the stream has what went through that. -/
lemma State.cout_eq_through {p : ℕ} (h : ∀ q, (C.appender q).type = .stdout ↔ q = p) :
    s.cout C = s.through p := by
  unfold State.cout State.through
  congr 2
  funext x
  rw [decide_eq_decide]
  exact h x.1

/-- **Loggers are taken in turn, and messages stay whole.** In every state without a statement under
way that any interleaving of threads which log leads to: each logger has taken, of every thread, the
events of its statements up to now that the level allows, in their order; it has handed each event
to all its appenders before the next, so that these have the events in one order; and what has gone
through an appender is one whole message behind the other. With one appender to `std::cout` only, so
has that. -/
theorem logging_in_order (h : Reach (State.step C) Free { todo := script } s) (hq : s.Quiet) :
    (∀ g t, s.taken g t ++ C.accepted g (s.todo t) = C.accepted g (script t)) ∧
    (∀ g, s.handed g = (s.order g).flatMap (C.round g)) ∧
    (∀ p, s.through p = (s.messages p).flatMap fun r => C.message p r.event) ∧
    ∀ p, (∀ q, (C.appender q).type = .stdout ↔ q = p) →
      s.cout C = (s.messages p).flatMap fun r => C.message p r.event := by
  have hx := Inv.of_reach h
  have hloggers : ∀ g, s.loggerLock g = none := by
    intro g
    cases hl : s.loggerLock g with
    | none => rfl
    | some t =>
      have hheld := (hx.loggers g t).1 hl
      rw [hq t] at hheld
      cases hheld
  have hfree : ∀ p, s.appenderLock p = none := by
    intro p
    cases hl : s.appenderLock p with
    | none => rfl
    | some t =>
      have hheld := (hx.appenders p t).1 hl
      rw [hq t] at hheld
      cases hheld
  have htexts : ∀ p, s.through p = (s.messages p).flatMap fun r => C.message p r.event := by
    intro p
    simpa [State.written, State.begun, hfree p] using hx.texts p
  refine ⟨fun g t => ?_, fun g => ?_, htexts, fun p hp => ?_⟩
  · simpa [State.view, hq t, Pc.ahead] using hx.threads g t
  · simpa [State.served, hloggers g] using hx.rounds g
  · rw [State.cout_eq_through hp]
    exact htexts p

end Runs

/-! ### Two threads -/

/-- Two loggers with an appender each, to `std::cout` or to a stream, and the pattern `%m%n`. -/
def pair (type : AppenderType) : Config where
  strftime fmt _ := fmt
  logger g := { formatter := LogFormatter.ofPattern ['%', 'm', '%', 'n'], appenders := [g] }
  appender _ := { type := type, formatter := some (LogFormatter.ofPattern ['%', 'm', '%', 'n']) }

/-- Each of two threads writes a line, to a logger of its own. -/
def lines (t : Bool) : List (ℕ × LogEvent) :=
  [(if t then 1 else 0, { hello with message := if t then ['b'] else ['a'] })]

def Pc.isIdle : Pc → Bool
  | .idle => true
  | _ => false

lemma Pc.eq_idle {pc : Pc} (h : pc.isIdle = true) : pc = .idle := by
  cases pc with
  | idle => rfl
  | lock | loop | write => cases h

theorem logging_in_order_pair :
    ∃ s : State Bool, s.Quiet ∧ s.through 0 = ['a', '\n'] ∧ s.through 1 = ['b', '\n'] ∧
      ∀ p, s.through p = (s.messages p).flatMap fun r => (pair .stream).message p r.event := by
  have h : (run (State.step (pair .stream)) (fun _ _ => true) { todo := lines }
      [false, true, false, true, true, false, false, true, true, false, false, true]).any (fun s =>
        decide ((∀ t, (s.pc t).isIdle = true) ∧ s.through 0 = ['a', '\n'] ∧
          s.through 1 = ['b', '\n'])) = true := by decide +kernel
  obtain ⟨s, hr, hs⟩ := exists_reach_of_run (G := Free) (fun _ _ _ => trivial) h
  obtain ⟨hidle, hzero, hone⟩ := of_decide_eq_true hs
  have hq : s.Quiet := fun t => Pc.eq_idle (hidle t)
  exact ⟨s, hq, hzero, hone, (logging_in_order hr hq).2.2.1⟩

/-- **Two lines are torn on `std::cout`.** Each of the loggers has an appender of its own, and a
thread writes between the message and the newline of the other. -/
theorem torn_line :
    ∃ s : State Bool, Reach (State.step (pair .stdout)) Free { todo := lines } s ∧ s.Quiet ∧
      s.cout (pair .stdout) = ['a', 'b', '\n', '\n'] ∧
      (pair .stdout).message 0 { hello with message := ['a'] } = ['a', '\n'] ∧
      (pair .stdout).message 1 { hello with message := ['b'] } = ['b', '\n'] := by
  have h : (run (State.step (pair .stdout)) (fun _ _ => true) { todo := lines }
      [false, false, false, false, true, true, true, true, true, true, true, false, false, false]).any
      (fun s => decide ((∀ t, (s.pc t).isIdle = true) ∧
        s.cout (pair .stdout) = ['a', 'b', '\n', '\n'])) = true := by decide +kernel
  obtain ⟨s, hr, hs⟩ := exists_reach_of_run (G := Free) (fun _ _ _ => trivial) h
  obtain ⟨hidle, hcout⟩ := of_decide_eq_true hs
  exact ⟨s, hr, fun t => Pc.eq_idle (hidle t), hcout, rfl, rfl⟩

end Eva01.Log.Concurrent
