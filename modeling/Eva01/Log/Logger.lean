import Eva01.Lib.Runs
import Eva01.Log.Items

/-!
A logger and its appenders: how an event gets from a log statement into a stream.

`EVA_LOG_*` tests the level of the logger, and the destructor of its `LogWrapper` calls
`Logger::log`, which tests it again and gives the event to each appender in turn; an appender tests
its own level, formats the event and writes the text. The appenders are numbered objects, since a
logger has them by pointer.

`StreamLogAppender::flush` is meant to hand out what has been written since the last call. It calls
`m_ss.clear()`, which resets the state of the stream and leaves its text; so what a call has handed
out is in all later ones again. What should be handed out is kept by a machine that has only the
two levels and the events accepted (`Intake`); the code follows it (`Follows`), and its calls of
`flush` return every event once only if none but the last returns anything (`delivered_once_iff`).
-/

namespace Eva01.Log

open Eva01.Lib Eva01.Lib.Runs

/-! ### Formatters and appenders -/

structure LogFormatter where
  /-- `m_items` -/
  items : List Item
  deriving DecidableEq, Repr

namespace LogFormatter

/-- `LogFormatter::LogFormatter` -/
def ofPattern (pattern : List Char) : LogFormatter := { items := (initItems pattern).items }

def format (strftime : List Char → ℕ → List Char) (f : LogFormatter) (event : LogEvent) :
    Except Fail (List Char) :=
  f.items.foldlM (fun ss i => (i.format strftime event).map (ss ++ ·)) []

/-- The text of an event, where formatting it is defined. -/
def text (strftime : List Char → ℕ → List Char) (f : LogFormatter) (event : LogEvent) : List Char :=
  match f.format strftime event with
  | .ok t => t
  | .error _ => []

end LogFormatter

/-- The classes derived from `LogAppender`. -/
inductive AppenderType
  | stdout
  | stream
  | file
  deriving DecidableEq, Repr

structure LogAppender where
  type : AppenderType
  formatter : Option LogFormatter := none
  level : Level := .debug
  /-- What has been written to `std::cout`, to `m_ss` or to `m_fstream`. -/
  written : List Char := []
  deriving DecidableEq, Repr

/-- `log` of an appender: the formatted event is written, if the level of the appender allows it. -/
def LogAppender.write (strftime : List Char → ℕ → List Char) (a : LogAppender) (event : LogEvent) :
    Except Fail LogAppender :=
  if a.level.toNat ≤ event.level.toNat then
    match a.formatter with
    | none => .error .noFormatter
    | some f => (f.format strftime event).map fun t => { a with written := a.written ++ t }
  else .ok a

def StdoutLogAppender.log := LogAppender.write

def StreamLogAppender.log := LogAppender.write

def FileLogAppender.log := LogAppender.write

def LogAppender.log (strftime : List Char → ℕ → List Char) (a : LogAppender) :
    LogEvent → Except Fail LogAppender :=
  match a.type with
  | .stdout => StdoutLogAppender.log strftime a
  | .stream => StreamLogAppender.log strftime a
  | .file => FileLogAppender.log strftime a

/-- `flush()`: what it returns, and the appender. -/
def StreamLogAppender.flush (a : LogAppender) : List Char × LogAppender := (a.written, a)

/-! ### The logger -/

structure Logger where
  level : Level := .debug
  formatter : LogFormatter
  appenders : List ℕ := []
  deriving DecidableEq, Repr

/-- A logger, and the appenders that there are. -/
structure Logs where
  logger : Logger
  appender : ℕ → LogAppender

namespace Logs

def setAppender (s : Logs) (p : ℕ) (a : LogAppender) : Logs :=
  { s with appender := Function.update s.appender p a }

/-- `Logger::setLevel` -/
def setLevel (s : Logs) (level : Level) : Logs :=
  { s with logger := { s.logger with level := level } }

/-- `LogAppender::setLevel` -/
def setAppenderLevel (s : Logs) (p : ℕ) (level : Level) : Logs :=
  s.setAppender p { s.appender p with level := level }

def addLogAppender (s : Logs) (p : ℕ) : Logs :=
  let s := { s with logger := { s.logger with appenders := s.logger.appenders ++ [p] } }
  match (s.appender p).formatter with
  | none => s.setAppender p { s.appender p with formatter := some s.logger.formatter }
  | some _ => s

variable (strftime : List Char → ℕ → List Char)

/-- One appender of the loop in `Logger::log`. -/
def logTo (event : LogEvent) (s : Logs) (p : ℕ) : Except Fail Logs :=
  ((s.appender p).log strftime event).map (s.setAppender p)

/-- `Logger::log` -/
def log (s : Logs) (level : Level) (event : LogEvent) : Except Fail Logs :=
  if s.logger.level.toNat ≤ level.toNat then s.logger.appenders.foldlM (logTo strftime event) s
  else .ok s

/-- `EVA_LOG_LEVEL`, with the event that is made and filled; the level is that of the event. -/
def statement (s : Logs) (event : LogEvent) : Except Fail Logs :=
  if s.logger.level.toNat ≤ event.level.toNat then s.log strftime event.level event else .ok s

end Logs

inductive LogAct
  | setLevel (level : Level)
  | setAppenderLevel (q : ℕ) (level : Level)
  | log (event : LogEvent)
  | flush

/-- A logger, and what the calls of `flush` have returned. -/
structure Session where
  logs : Logs
  returned : List (List Char) := []

namespace Session

variable (strftime : List Char → ℕ → List Char) (p : ℕ)

/-- A call or statement; `flush` is called on the appender `p`. -/
def act (s : Session) : LogAct → Except Fail Session
  | .setLevel level => .ok { s with logs := s.logs.setLevel level }
  | .setAppenderLevel q level => .ok { s with logs := s.logs.setAppenderLevel q level }
  | .log event => (s.logs.statement strftime event).map fun logs => { s with logs := logs }
  | .flush =>
      let (text, a) := StreamLogAppender.flush (s.logs.appender p)
      .ok { logs := s.logs.setAppender p a, returned := s.returned ++ [text] }

def run (s : Session) (acts : List LogAct) : Except Fail Session :=
  acts.foldlM (fun s a => s.act strftime p a) s

end Session

/-! ### What is to be delivered -/

/-- The two levels, and the events accepted so far. -/
structure Intake where
  logger : Level
  appender : Level
  accepted : List LogEvent := []

namespace Intake

variable (p : ℕ)

def act (i : Intake) : LogAct → Intake
  | .setLevel level => { i with logger := level }
  | .setAppenderLevel q level => if q = p then { i with appender := level } else i
  | .log event =>
      if i.logger.toNat ≤ event.level.toNat ∧ i.appender.toNat ≤ event.level.toNat then
        { i with accepted := i.accepted ++ [event] }
      else i
  | .flush => i

/-- The intake of the appender `p` of a logger. -/
def start (s : Logs) : Intake := { logger := s.logger.level, appender := (s.appender p).level }

end Intake

/-- The events that are at least of both levels when they are logged. -/
def Logs.accepted (s : Logs) (p : ℕ) (acts : List LogAct) : List LogEvent :=
  (acts.foldl (Intake.act p) (Intake.start p s)).accepted

/-- Every appender of the logger has a formatter, which has a text for each of the events. -/
def Logs.Formats (strftime : List Char → ℕ → List Char) (s : Logs) (acts : List LogAct) : Prop :=
  ∀ q ∈ s.logger.appenders, ∃ f, (s.appender q).formatter = some f ∧
    ∀ event, .log event ∈ acts → ∃ t, f.format strftime event = .ok t

/-! ### One statement -/

section Loop

variable {strftime : List Char → ℕ → List Char} {s s' : Logs} {p q : ℕ} {event : LogEvent}
  {f : LogFormatter} {t : List Char} {acts : List LogAct}

/-- Nothing but what appenders have written is changed. -/
structure Logs.Same (s s' : Logs) : Prop where
  logger : s'.logger = s.logger
  level : ∀ q, (s'.appender q).level = (s.appender q).level
  formatter : ∀ q, (s'.appender q).formatter = (s.appender q).formatter

lemma Logs.Same.refl (s : Logs) : s.Same s := ⟨rfl, fun _ => rfl, fun _ => rfl⟩

lemma Logs.Same.trans {s₁ : Logs} (h : s.Same s₁) (h' : s₁.Same s') : s.Same s' :=
  ⟨h'.logger.trans h.logger, fun q => (h'.level q).trans (h.level q),
    fun q => (h'.formatter q).trans (h.formatter q)⟩

lemma Logs.Same.formats (h : s.Same s') (hf : s.Formats strftime acts) :
    s'.Formats strftime acts := by
  intro q hq
  rw [h.logger] at hq
  rw [h.formatter q]
  exact hf q hq

lemma Logs.setAppender_self {a : LogAppender} : (s.setAppender p a).appender p = a := by
  simp only [Logs.setAppender, Function.update_self]

lemma Logs.setAppender_of_ne {a : LogAppender} (h : q ≠ p) :
    (s.setAppender p a).appender q = s.appender q := by
  simp only [Logs.setAppender, Function.update_of_ne h]

lemma Logs.setAppender_appender : s.setAppender p (s.appender p) = s := by
  rw [Logs.setAppender, Function.update_eq_self]

lemma Logs.same_setAppender {written : List Char} :
    s.Same (s.setAppender p { s.appender p with written := written }) where
  logger := rfl
  level q := by
    by_cases hq : q = p
    · rw [hq, Logs.setAppender_self]
    · rw [Logs.setAppender_of_ne hq]
  formatter q := by
    by_cases hq : q = p
    · rw [hq, Logs.setAppender_self]
    · rw [Logs.setAppender_of_ne hq]

lemma LogAppender.log_eq_write (a : LogAppender) :
    a.log strftime event = a.write strftime event := by
  unfold LogAppender.log
  cases a.type <;> rfl

/-- What an appender writes of an event. -/
def LogAppender.share (strftime : List Char → ℕ → List Char) (a : LogAppender) (f : LogFormatter)
    (event : LogEvent) : List Char :=
  if a.level.toNat ≤ event.level.toNat then f.text strftime event else []

lemma LogAppender.write_inv {a a' : LogAppender} (h : a.write strftime event = .ok a') :
    ∃ t, a' = { a with written := a.written ++ t } ∧
      ∀ f, a.formatter = some f → t = a.share strftime f event := by
  unfold LogAppender.write at h
  unfold LogAppender.share
  split at h
  · rename_i hlevel
    cases hf : a.formatter with
    | none =>
      rw [hf] at h
      cases h
    | some g =>
      rw [hf] at h
      obtain ⟨t, ht, rfl⟩ := map_eq_ok.1 h
      refine ⟨t, rfl, fun f hfg => ?_⟩
      cases hfg
      rw [if_pos hlevel, LogFormatter.text, ht]
  · rename_i hlevel
    cases h
    exact ⟨[], by simp, fun f _ => (if_neg hlevel).symm⟩

lemma Logs.logTo_inv (h : s.logTo strftime event q = .ok s') :
    s.Same s' ∧ ∀ f, (s.appender p).formatter = some f →
      (s'.appender p).written = (s.appender p).written ++
        if q = p then (s.appender p).share strftime f event else [] := by
  obtain ⟨a, hwrite, rfl⟩ := map_eq_ok.1 h
  rw [LogAppender.log_eq_write] at hwrite
  obtain ⟨t, rfl, ht⟩ := LogAppender.write_inv hwrite
  refine ⟨Logs.same_setAppender, fun f hf => ?_⟩
  by_cases hq : q = p
  · subst hq
    rw [Logs.setAppender_self, if_pos rfl, ht f hf]
  · rw [Logs.setAppender_of_ne (Ne.symm hq), if_neg hq, List.append_nil]

/-- **The loop of `Logger::log`**: an appender gets its share of the event as often as it is there. -/
lemma Logs.foldlM_logTo_inv {qs : List ℕ}
    (h : qs.foldlM (Logs.logTo strftime event) s = .ok s') :
    s.Same s' ∧ ∀ f, (s.appender p).formatter = some f →
      (s'.appender p).written = (s.appender p).written ++
        (List.replicate (qs.count p) ((s.appender p).share strftime f event)).flatten := by
  induction qs generalizing s with
  | nil =>
    cases h
    exact ⟨.refl s', fun f _ => by simp⟩
  | cons q qs ih =>
    obtain ⟨s₁, hq, hqs⟩ := foldlM_cons_eq_ok.1 h
    obtain ⟨hsame, hwritten⟩ := Logs.logTo_inv (p := p) hq
    obtain ⟨hsame', hwritten'⟩ := ih hqs
    refine ⟨hsame.trans hsame', fun f hf => ?_⟩
    have hshare : (s₁.appender p).share strftime f event =
        (s.appender p).share strftime f event := by
      rw [LogAppender.share, LogAppender.share, hsame.level p]
    rw [hwritten' f ((hsame.formatter p).trans hf), hwritten f hf, hshare]
    by_cases hqp : q = p
    · subst hqp
      rw [if_pos rfl, List.count_cons_self, List.replicate_succ, List.flatten_cons,
        List.append_assoc]
    · rw [if_neg hqp, List.count_cons_of_ne hqp, List.append_nil]

/-- **A statement**: an appender that is there once gets the event if both levels allow it. -/
lemma Logs.statement_inv (h : s.statement strftime event = .ok s')
    (hp : (s.appender p).formatter = some f) (honce : s.logger.appenders.count p = 1) :
    s.Same s' ∧
      (s'.appender p).written = (s.appender p).written ++
        if s.logger.level.toNat ≤ event.level.toNat then (s.appender p).share strftime f event
        else [] := by
  unfold Logs.statement Logs.log at h
  by_cases hlevel : s.logger.level.toNat ≤ event.level.toNat
  · simp only [if_pos hlevel] at h ⊢
    obtain ⟨hsame, hwritten⟩ := Logs.foldlM_logTo_inv (p := p) h
    refine ⟨hsame, ?_⟩
    rw [hwritten f hp, honce]
    simp
  · simp only [if_neg hlevel] at h ⊢
    cases h
    exact ⟨.refl s, by simp⟩

/-! ### Statements that are defined -/

lemma Logs.logTo_isOk (hf : (s.appender p).formatter = some f)
    (ht : ∃ t, f.format strftime event = .ok t) : ∃ s', s.logTo strftime event p = .ok s' := by
  obtain ⟨t, ht⟩ := ht
  unfold Logs.logTo
  rw [LogAppender.log_eq_write, LogAppender.write]
  split
  · simp only [hf, ht]
    exact ⟨_, rfl⟩
  · exact ⟨_, rfl⟩

lemma Logs.statement_isOk (hf : s.Formats strftime acts) (hevent : .log event ∈ acts) :
    ∃ s', s.statement strftime event = .ok s' ∧ s.Same s' := by
  unfold Logs.statement Logs.log
  by_cases hlevel : s.logger.level.toNat ≤ event.level.toNat
  · simp only [if_pos hlevel]
    -- whatever the appenders before it have written, each one has the formatter it had
    refine exists_foldlM_eq_ok (P := s.Same) (.refl s) fun {s₁ q} hsame hq => ?_
    obtain ⟨g, hg, ht⟩ := hf q hq
    obtain ⟨s', hs'⟩ := Logs.logTo_isOk ((hsame.formatter q).trans hg) (ht event hevent)
    exact ⟨s', hs', hsame.trans (Logs.logTo_inv (p := q) hs').1⟩
  · simp only [if_neg hlevel]
    exact ⟨s, rfl, .refl s⟩

end Loop

/-! ### Whole sequences -/

/-- The code follows the intake of the appender `p`: what has been written is the text of the
events accepted. -/
structure Follows (strftime : List Char → ℕ → List Char) (p : ℕ) (f : LogFormatter) (s : Logs)
    (i : Intake) : Prop where
  logger : s.logger.level = i.logger
  appender : (s.appender p).level = i.appender
  written : (s.appender p).written = i.accepted.flatMap (f.text strftime)
  formatter : (s.appender p).formatter = some f
  once : s.logger.appenders.count p = 1

/-- What the calls of `flush` in a sequence return. -/
def flushes (text : LogEvent → List Char) (p : ℕ) (i : Intake) : List LogAct → List (List Char)
  | [] => []
  | .flush :: acts => i.accepted.flatMap text :: flushes text p (i.act p .flush) acts
  | a :: acts => flushes text p (i.act p a) acts

section Sequences

variable {strftime : List Char → ℕ → List Char} {p : ℕ} {f : LogFormatter} {all acts : List LogAct}
  {s s' : Session} {i : Intake} {a : LogAct}

lemma Intake.levels_log {event : LogEvent} :
    (i.act p (.log event)).logger = i.logger ∧ (i.act p (.log event)).appender = i.appender := by
  rw [Intake.act]
  split <;> exact ⟨rfl, rfl⟩

lemma Intake.flatMap_log (text : LogEvent → List Char) {event : LogEvent} :
    (i.act p (.log event)).accepted.flatMap text = i.accepted.flatMap text ++
      if i.logger.toNat ≤ event.level.toNat then
        if i.appender.toNat ≤ event.level.toNat then text event else []
      else [] := by
  rw [Intake.act]
  by_cases hl : i.logger.toNat ≤ event.level.toNat
  · by_cases ha : i.appender.toNat ≤ event.level.toNat <;> simp [hl, ha]
  · simp [hl]

lemma Follows.log {s s' : Logs} {event : LogEvent} (h : Follows strftime p f s i)
    (hsame : s.Same s')
    (hwritten : (s'.appender p).written = (s.appender p).written ++
      if s.logger.level.toNat ≤ event.level.toNat then (s.appender p).share strftime f event
      else []) : Follows strftime p f s' (i.act p (.log event)) where
  logger := by rw [hsame.logger, h.logger, Intake.levels_log.1]
  appender := by rw [hsame.level, h.appender, Intake.levels_log.2]
  written := by
    rw [hwritten, Intake.flatMap_log, h.written, h.logger, LogAppender.share, h.appender]
  formatter := by rw [hsame.formatter, h.formatter]
  once := by rw [hsame.logger, h.once]

lemma Logs.setAppenderLevel_of_ne {s : Logs} {q : ℕ} (hq : q ≠ p) (level : Level) :
    (s.setAppenderLevel q level).appender p = s.appender p :=
  Logs.setAppender_of_ne hq.symm

lemma Logs.setAppenderLevel_self {s : Logs} {level : Level} :
    (s.setAppenderLevel p level).appender p = { s.appender p with level := level } :=
  Logs.setAppender_self

lemma Logs.formatter_setAppenderLevel {s : Logs} (q q' : ℕ) (level : Level) :
    ((s.setAppenderLevel q level).appender q').formatter = (s.appender q').formatter := by
  by_cases hq : q = q'
  · rw [hq, Logs.setAppenderLevel_self]
  · rw [Logs.setAppenderLevel_of_ne hq]

lemma Follows.setAppenderLevel {s : Logs} (h : Follows strftime p f s i) (q : ℕ) (level : Level) :
    Follows strftime p f (s.setAppenderLevel q level) (i.act p (.setAppenderLevel q level)) := by
  have hformatter : ((s.setAppenderLevel q level).appender p).formatter = some f :=
    (Logs.formatter_setAppenderLevel q p level).trans h.formatter
  rw [Intake.act]
  by_cases hq : q = p
  · subst hq
    rw [if_pos rfl]
    refine ⟨h.logger, ?_, ?_, hformatter, h.once⟩ <;> rw [Logs.setAppenderLevel_self]
    exact h.written
  · rw [if_neg hq]
    refine ⟨h.logger, ?_, ?_, hformatter, h.once⟩ <;> rw [Logs.setAppenderLevel_of_ne hq]
    · exact h.appender
    · exact h.written

lemma Follows.act (h : Follows strftime p f s.logs i) (hact : s.act strftime p a = .ok s') :
    Follows strftime p f s'.logs (i.act p a) ∧
      s'.returned = s.returned ++ flushes (f.text strftime) p i [a] := by
  cases a with
  | setLevel level =>
    cases hact
    exact ⟨⟨rfl, h.appender, h.written, h.formatter, h.once⟩, by simp [flushes]⟩
  | setAppenderLevel q level =>
    cases hact
    exact ⟨h.setAppenderLevel q level, by simp [flushes]⟩
  | log event =>
    obtain ⟨logs, hs, rfl⟩ := map_eq_ok.1 hact
    obtain ⟨hsame, hwritten⟩ := Logs.statement_inv hs h.formatter h.once
    exact ⟨h.log hsame hwritten, by simp [flushes]⟩
  | flush =>
    cases hact
    constructor
    · -- the appender is left as it is
      show Follows strftime p f (s.logs.setAppender p (s.logs.appender p)) i
      rw [Logs.setAppender_appender]
      exact h
    · show s.returned ++ [(s.logs.appender p).written] = _
      rw [h.written]
      rfl

lemma flushes_append (text : LogEvent → List Char) (i : Intake) (acts acts' : List LogAct) :
    flushes text p i (acts ++ acts') =
      flushes text p i acts ++ flushes text p (acts.foldl (Intake.act p) i) acts' := by
  induction acts generalizing i with
  | nil => rfl
  | cons a acts ih => cases a <;> simp [flushes, ih]

/-- **Every sequence**: the code follows the intake, and its calls of `flush` return all that has
been accepted up to then. -/
lemma Follows.run (h : Follows strftime p f s.logs i) (hrun : s.run strftime p acts = .ok s') :
    s'.returned = s.returned ++ flushes (f.text strftime) p i acts := by
  induction acts generalizing s i with
  | nil =>
    cases hrun
    simp [flushes]
  | cons a acts ih =>
    obtain ⟨s₁, hact, hrest⟩ := foldlM_cons_eq_ok.1 hrun
    obtain ⟨hs₁, hret₁⟩ := h.act hact
    rw [ih hs₁ hrest, hret₁, List.append_assoc]
    exact congrArg _ (flushes_append _ i [a] acts).symm

lemma Session.act_isOk (hf : s.logs.Formats strftime all) (ha : a ∈ all) :
    ∃ s', s.act strftime p a = .ok s' ∧ s'.logs.Formats strftime all := by
  cases a with
  | setLevel level => exact ⟨_, rfl, hf⟩
  | setAppenderLevel q level =>
    refine ⟨_, rfl, fun r hr => ?_⟩
    rw [Logs.formatter_setAppenderLevel]
    exact hf r hr
  | log event =>
    obtain ⟨logs, hs, hsame⟩ := Logs.statement_isOk hf ha
    refine ⟨{ s with logs := logs }, ?_, hsame.formats hf⟩
    rw [Session.act, hs]
    rfl
  | flush =>
    refine ⟨_, rfl, ?_⟩
    show (s.logs.setAppender p (s.logs.appender p)).Formats strftime all
    rw [Logs.setAppender_appender]
    exact hf

lemma mem_flushes {text : LogEvent → List Char} {o : List Char} :
    o ∈ flushes text p i acts ↔ ∃ before after, acts = before ++ .flush :: after ∧
      o = (before.foldl (Intake.act p) i).accepted.flatMap text := by
  induction acts generalizing i with
  | nil => simp [flushes]
  | cons a acts ih =>
    -- the call is the first of the sequence, or one of the rest
    have hsplit : (∃ before after, a :: acts = before ++ .flush :: after ∧
          o = (before.foldl (Intake.act p) i).accepted.flatMap text) ↔
        (a = .flush ∧ o = i.accepted.flatMap text) ∨
          o ∈ flushes text p (i.act p a) acts := by
      rw [ih]
      constructor
      · rintro ⟨before, after, heq, ho⟩
        rcases List.cons_eq_append_iff.1 heq with ⟨rfl, hcons⟩ | ⟨before', rfl, hacts⟩
        · obtain ⟨rfl, -⟩ := List.cons.inj hcons
          exact .inl ⟨rfl, ho⟩
        · exact .inr ⟨before', after, hacts, ho⟩
      · rintro (⟨rfl, ho⟩ | ⟨before, after, rfl, ho⟩)
        · exact ⟨[], acts, rfl, ho⟩
        · exact ⟨a :: before, after, rfl, ho⟩
    rw [hsplit]
    cases a with
    | flush => simp [flushes]
    | setLevel | setAppenderLevel | log => simp [flushes]

end Sequences

/-- The formatter that an appender has behind `addLogAppender`. -/
def Logs.formatterFor (s : Logs) (p : ℕ) : LogFormatter :=
  (s.appender p).formatter.getD s.logger.formatter

lemma Logs.addLogAppender_appender (s : Logs) (p : ℕ) :
    (s.addLogAppender p).appender p =
      { s.appender p with formatter := some (s.formatterFor p) } := by
  unfold Logs.addLogAppender Logs.formatterFor
  cases h : (s.appender p).formatter with
  | none => simp only [h, Option.getD_none, Logs.setAppender_self]
  | some f =>
    simp only [h, Option.getD_some]
    rw [← h]

lemma Logs.addLogAppender_logger (s : Logs) (p : ℕ) : (s.addLogAppender p).logger =
    { s.logger with appenders := s.logger.appenders ++ [p] } := by
  unfold Logs.addLogAppender
  cases h : (s.appender p).formatter with
  | none =>
    simp only [h]
    rfl
  | some f => simp only [h]

lemma Logs.follows_start {strftime : List Char → ℕ → List Char} {s : Logs} {p : ℕ}
    (hp : p ∉ s.logger.appenders) (hnew : (s.appender p).written = []) :
    Follows strftime p (s.formatterFor p) (s.addLogAppender p)
      (Intake.start p (s.addLogAppender p)) where
  logger := rfl
  appender := rfl
  written := by
    rw [Logs.addLogAppender_appender, hnew]
    rfl
  formatter := by rw [Logs.addLogAppender_appender]
  once := by
    rw [Logs.addLogAppender_logger, List.count_append, List.count_eq_zero_of_not_mem hp,
      List.count_singleton_self]

/-- **Every event is delivered once exactly if nothing is flushed before the end.** A new stream
appender is added to a logger, and any sequence ends with `flush()`. It is defined if the events have
a text; and then the texts returned, one behind the other, are those of the accepted events if and
only if no call of `flush` but the last had anything to return. -/
theorem delivered_once_iff (strftime : List Char → ℕ → List Char) (s : Logs) (p : ℕ)
    (acts : List LogAct) (hp : p ∉ s.logger.appenders) (hnew : (s.appender p).written = []) :
    ((s.addLogAppender p).Formats strftime acts →
      ∃ s', Session.run strftime p { logs := s.addLogAppender p } (acts ++ [.flush]) = .ok s') ∧
    ∀ s', Session.run strftime p { logs := s.addLogAppender p } (acts ++ [.flush]) = .ok s' →
      (s'.returned.flatten =
          ((s.addLogAppender p).accepted p acts).flatMap ((s.formatterFor p).text strftime) ↔
        ∀ before after, acts = before ++ .flush :: after →
          ((s.addLogAppender p).accepted p before).flatMap ((s.formatterFor p).text strftime) =
            []) := by
  refine ⟨fun hf => ?_, fun s' hrun => ?_⟩
  · have hall : (s.addLogAppender p).Formats strftime (acts ++ [.flush]) := by
      intro q hq
      obtain ⟨g, hg, ht⟩ := hf q hq
      exact ⟨g, hg, fun event he => ht event (by simpa using he)⟩
    obtain ⟨s', hrun, -⟩ := exists_foldlM_eq_ok
      (P := fun s : Session => s.logs.Formats strftime (acts ++ [.flush]))
      (s := { logs := s.addLogAppender p }) hall fun hs ha => Session.act_isOk (p := p) hs ha
    exact ⟨s', hrun⟩
  rw [(Logs.follows_start hp hnew).run hrun, flushes_append, List.nil_append, List.flatten_append]
  have hlast : (flushes ((s.formatterFor p).text strftime) p
      (acts.foldl (Intake.act p) (Intake.start p (s.addLogAppender p))) [.flush]).flatten =
      ((s.addLogAppender p).accepted p acts).flatMap ((s.formatterFor p).text strftime) := by
    simp [flushes, Logs.accepted]
  rw [hlast, List.append_left_eq_self, List.flatten_eq_nil_iff]
  constructor
  · intro h before after heq
    exact h _ (mem_flushes.2 ⟨before, after, heq, rfl⟩)
  · intro h o ho
    obtain ⟨before, after, heq, rfl⟩ := mem_flushes.1 ho
    exact h before after heq

/-- An event of the level `INFO`. -/
def hello : LogEvent where
  file := shortPath
  line := 7
  time := 0
  level := .info
  threadId := 1
  fiberId := 0
  threadName := ['m', 'a', 'i', 'n']
  message := ['h', 'i']
  loggerName := ['r', 'o', 'o', 't']

/-- A logger with the pattern `%m%n`, and stream appenders. -/
def messages : Logs where
  logger := { formatter := LogFormatter.ofPattern ['%', 'm', '%', 'n'] }
  appender _ := { type := .stream }

/-- A `flush` of nothing, then an event that is accepted, one that is below the level of the logger,
and one that is accepted when the level is set back. -/
def levels : List LogAct :=
  [.flush, .log hello, .setLevel .error, .log hello, .setLevel .debug,
    .log { hello with message := ['b', 'y', 'e'] }]

theorem delivered_once_hello :
    ∃ s', Session.run (fun fmt _ => fmt) 0 { logs := messages.addLogAppender 0 }
        (levels ++ [.flush]) = .ok s' ∧
      s'.returned.flatten = ['h', 'i', '\n', 'b', 'y', 'e', '\n'] := by
  have hf : (messages.addLogAppender 0).Formats (fun fmt _ => fmt) levels := by
    intro q hq
    obtain rfl : q = 0 := List.mem_singleton.1 hq
    refine ⟨messages.logger.formatter, rfl, fun event he => ?_⟩
    have hevent : event = hello ∨ event = { hello with message := ['b', 'y', 'e'] } := by
      simpa [levels] using he
    rcases hevent with rfl | rfl
    · exact ⟨['h', 'i', '\n'], rfl⟩
    · exact ⟨['b', 'y', 'e', '\n'], rfl⟩
  obtain ⟨hok, hiff⟩ := delivered_once_iff (fun fmt _ => fmt) messages 0 levels (by decide) rfl
  obtain ⟨s', hrun⟩ := hok hf
  refine ⟨s', hrun, (hiff s' hrun).2 fun before after heq => ?_⟩
  -- only the first action is a `flush`
  rcases List.cons_eq_append_iff.1 heq with ⟨rfl, -⟩ | ⟨before', -, htail⟩
  · rfl
  · have hmem : LogAct.flush ∈ levels.tail := by
      rw [show levels.tail = before' ++ .flush :: after from htail]
      simp
    simp [levels] at hmem

/-- **An event is delivered twice**: the second `flush()` returns what the first has returned. -/
theorem delivered_twice :
    (Session.run (fun fmt _ => fmt) 0 { logs := messages.addLogAppender 0 }
      [.log hello, .flush, .flush]).map Session.returned =
        .ok [['h', 'i', '\n'], ['h', 'i', '\n']] ∧
    (messages.addLogAppender 0).accepted 0 [.log hello, .flush] = [hello] := by
  exact ⟨rfl, rfl⟩

end Eva01.Log
