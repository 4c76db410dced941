import Eva01.Hook.FdManager
import Eva01.Runtime.Calls

/-!
Calls on a descriptor that is closed under them (`no_io_after_close`).

`close` wakes the fibers that wait for the descriptor, by `cancelAll`, and gives the number back to
the kernel. A fiber that wakes up in `do_io` tests its `timer_info` and nothing else; if no timeout
has been noted there, it goes back to `retry` and makes its call on the number, whichever socket has
that by now (`recycled`). So only a call whose timeout callback has run before it is resumed ends
with an error.

To the machine of the runtime are added the descriptors: the sockets that the kernel has behind the
numbers, and the table of `FdManager`. Tasks may call `close`, and `socket` or `accept`. The parts of
these that the runtime knows nothing of are choices to it (`program`); a step of the whole machine
is a step of the runtime with the choice that the descriptors give. A history records the calls.
-/

namespace Eva01.Runtime

open Eva01.Hook (FdManager FdCtx)
open Eva01.IOManager (Event)
open Eva01.Lib.Runs

variable {κ κ' : Type*} {n N : ℕ}

/-! ### Programs with descriptors -/

/-- What a task does at a point of its code. -/
inductive FdOp (κ : Type*) (N : ℕ)
  | base (op : Op κ N)
  | close (fd : Fin N) (next : κ)
  /-- `socket` or `accept`, with the descriptor it returns. -/
  | socket (next : Fin N → κ)

/-- The points of a task, and those inside the hooked functions. -/
inductive Point (κ : Type*) (N : ℕ)
  | user (k : κ)
  /-- `do_io`, `connect_with_timeout`: behind the tests of the context. -/
  | io (fd : Fin N) (e : Event) (timeout : Option ℕ) (retry : Bool) (next : κ)
  /-- `close`: before `cancelAll`. -/
  | cancelAll (fd : Fin N) (next : κ)
  /-- `close`: before `FdManager::del`. -/
  | del (fd : Fin N) (next : κ)
  /-- `close`: before `close_f`. -/
  | closeF (fd : Fin N) (next : κ)
  /-- `socket`, `accept`: before `FdManager::get(fd, true)`. -/
  | create (fd : Fin N) (next : κ)
  deriving DecidableEq

/-- The operation, with its points renamed. -/
def Op.map (g : κ → κ') : Op κ N → Op κ' N
  | .ret => .ret
  | .throw => .throw
  | .branch next => .branch fun v => g (next v)
  | .schedule gs thr next => .schedule (gs.map g) thr (g next)
  | .spawn k thr next => .spawn (g k) thr (g next)
  | .addTimer ms k recurring next => .addTimer ms (g k) recurring (g next)
  | .sleep ms next => .sleep ms (g next)
  | .yieldReady next => .yieldReady (g next)
  | .io fd e timeout retry next => .io fd e timeout retry (g next)
  | .addEvent fd e k next => .addEvent fd e (g k) (g next)
  | .delEvent fd e next => .delEvent fd e (g next)
  | .cancelEvent fd e next => .cancelEvent fd e (g next)
  | .cancelAll fd next => .cancelAll fd (g next)

/-- The program as the runtime sees it. A lookup in the table is a choice, with 0 for a call that
does not wait or a descriptor without context; the kernel chooses the descriptor of a socket. -/
def program (p : κ → FdOp κ N) : Point κ N → Op (Point κ N) N
  | .user k =>
      match p k with
      | .base (.io fd e timeout retry next) =>
          .branch fun v => if v = 0 then .user next else .io fd e timeout retry next
      | .base op => op.map .user
      | .close fd next => .branch fun v => if v = 0 then .closeF fd next else .cancelAll fd next
      | .socket next =>
          .branch fun v => if h : v < N then .create ⟨v, h⟩ (next ⟨v, h⟩) else .user k
  | .io fd e timeout retry next => .io fd e timeout retry (.user next)
  | .cancelAll fd next => .cancelAll fd (.del fd next)
  | .del fd next => .branch fun _ => .closeF fd next
  | .closeF _ next | .create _ next => .branch fun _ => .user next

/-- The machine that runs a program with descriptors. -/
def Setup.runs (S : Setup (Point κ N) n N) (p : κ → FdOp κ N) : Setup (Point κ N) n N :=
  { S with prog := program p }

/-! ### Descriptors -/

/-- The sockets behind the descriptors, numbered in the order in which they are made, and the table
of `FdManager`. -/
structure Descriptors (N : ℕ) where
  sockets : Fin N → Option ℕ := fun _ => none
  made : ℕ := 0
  fdm : FdManager := {}

namespace Descriptors

/-- `FdManager::get(fd)` -/
def get (d : Descriptors N) (fd : Fin N) : Option FdCtx :=
  ((d.fdm.get (fd : ℕ)).toOption).join

/-- The tests that `do_io` makes before `retry`: whether the call is one that waits. -/
def waits (d : Descriptors N) (fd : Fin N) : Bool :=
  (d.get fd).any fun c => c.isManaged && !c.userNonblock

/-- `FdManager::get(fd, true)`, with what `FdCtx::init` finds of a socket. -/
def create (d : Descriptors N) (fd : Fin N) : Option (Descriptors N) :=
  match d.get fd with
  | some _ => some d
  | none =>
      let c : FdCtx := { isInit := true, isSocket := true, sysNonblock := true, fd := (fd : ℕ) }
      (d.fdm.store (fd : ℕ) c).toOption.map fun m => { d with fdm := m }

/-- `socket_f`, `accept_f`: the kernel gives a new socket a number that is free. -/
def socket (d : Descriptors N) (v : ℕ) : Option (Descriptors N) :=
  if h : v < N then
    if d.sockets ⟨v, h⟩ = none then
      some { d with sockets := Function.update d.sockets ⟨v, h⟩ (some d.made), made := d.made + 1 }
    else none
  else none

/-- What a task does to the descriptors at a point of its code. There is no step where the choice
of the runtime is not the one the descriptors give. -/
def step (p : κ → FdOp κ N) (d : Descriptors N) (ch : Choice N) :
    Point κ N → Option (Descriptors N)
  | .user k =>
      match p k with
      | .base (.io fd _ _ _ _) => if ch = .value (d.waits fd).toNat then some d else none
      | .base _ => some d
      | .close fd _ => if ch = .value (d.get fd).isSome.toNat then some d else none
      | .socket _ =>
          match ch with
          | .value v => d.socket v
          | _ => none
  | .io _ _ _ _ _ | .cancelAll _ _ => some d
  | .del fd _ => (d.fdm.del (fd : ℕ)).toOption.map fun m => { d with fdm := m }
  | .closeF fd _ => some { d with sockets := Function.update d.sockets fd none }
  | .create fd _ => d.create fd

end Descriptors

/-! ### The machine with its history -/

/-- A record of the history. -/
inductive Note (N : ℕ)
  /-- A number is given to a new socket. -/
  | opened (v socket : ℕ)
  /-- A call makes its underlying call, and on which socket. -/
  | issued (call : ℕ) (socket : Option ℕ)
  /-- `close` is called, while these calls of `do_io` are blocked on the descriptor. -/
  | closed (fd : Fin N) (calls : List ℕ)
  /-- A call returns -1, with `errno` from its `timer_info`. -/
  | failed (call : ℕ)
  /-- A call returns in another way. -/
  | returned (call : ℕ)
  deriving DecidableEq

/-- The calls of `do_io` that are blocked on a descriptor: the fiber has given up control behind
`addEvent`, and no worker has resumed it. -/
def Sys.blockedOn (x : Sys κ n N) (fd : Fin N) : List ℕ :=
  (List.range x.shared.nextFiber).filterMap fun f =>
    match (x.shared.fibers f).ctx with
    | .at (.io r _) =>
        if (x.shared.fibers f).state = .suspend ∧ r.fd = fd ∧ r.retry = true ∧
            ∀ i, (x.workers i).pc.executing ≠ some f then some r.info
        else none
    | _ => none

/-- The point of a fiber's code that an action goes on from, with the choice. -/
def Sys.codeAt (x : Sys κ n N) : Act κ n N → Option (Code κ N × Choice N)
  | .worker i ch =>
      match (x.workers i).pc with
      | .exec _ _ c => some (c, ch)
      | _ => none
  | _ => none

/-- The call that an action resumes. -/
def Sys.resumes (x : Sys κ n N) : Act κ n N → Option (Io κ N)
  | .worker i _ =>
      match (x.workers i).pc with
      | .swapIn _ f => (x.shared.fibers f).ctx.call.map Prod.fst
      | _ => none
  | _ => none

structure Recycling (κ : Type*) (n N : ℕ) where
  sys : Sys (Point κ N) n N := {}
  desc : Descriptors N := {}
  log : List (Note N) := []

namespace Recycling

/-- What is recorded of a step of a fiber. -/
def notes (p : κ → FdOp κ N) (x : Recycling κ n N) :
    Code (Point κ N) N × Choice N → List (Note N)
  | (.user (.user k), ch) =>
      match p k, ch with
      | .close fd _, _ => [.closed fd (x.sys.blockedOn fd)]
      | .socket _, .value v => [.opened v x.desc.made]
      | _, _ => []
  | (.ioCall r, ch) =>
      .issued r.info (x.desc.sockets r.fd) ::
        if ch = .result .done ∨ ch = .result .eintr ∧ r.retry = false then [.returned r.info] else []
  | (.ioCheck r, _) =>
      if (x.sys.shared.infos r.info).cancelled then [.failed r.info]
      else if r.retry then [] else [.returned r.info]
  | _ => []

/-- What a step of a fiber does to the descriptors. -/
def descStep (p : κ → FdOp κ N) (x : Recycling κ n N) :
    Code (Point κ N) N × Choice N → Option (Descriptors N)
  | (.user k, ch) => x.desc.step p ch k
  | _ => some x.desc

def step (S : Setup (Point κ N) n N) (p : κ → FdOp κ N) (x : Recycling κ n N)
    (a : Act (Point κ N) n N) : Option (Recycling κ n N) :=
  match x.sys.codeAt a with
  | none => (x.sys.step (S.runs p) a).map fun y => { x with sys := y }
  | some c =>
      (x.descStep p c).bind fun d =>
        (x.sys.step (S.runs p) a).map fun y =>
          { sys := y, desc := d, log := x.log ++ x.notes p c }

end Recycling

/-- The calls of `do_io` that were blocked on a descriptor when `close` was called for it. -/
def closedCalls (log : List (Note N)) : List ℕ :=
  log.flatMap fun
    | .closed _ calls => calls
    | _ => []

/-- A call whose descriptor has been closed under it makes no underlying call, and returns in no
other way than with an error. -/
def Spared (before : List (Note N)) : Note N → Prop
  | .issued c _ | .returned c => c ∉ closedCalls before
  | _ => True

/-- **Calls time out first**: one whose descriptor has been closed under it is resumed only after
its timeout callback has noted the timeout. -/
def TimesOutFirst (x : Recycling κ n N) (a : Act (Point κ N) n N) : Prop :=
  ∀ r ∈ x.sys.resumes a, r.info ∈ closedCalls x.log →
    (x.sys.shared.infos r.info).cancelled = true

/-! ### Calls and their fibers -/

/-- The fiber `f` is in the call `r`, or was when it last gave up control. -/
def Sys.Makes (x : Sys κ n N) (f : ℕ) (r : Io κ N) : Prop :=
  (∃ i b c t, (x.workers i).pc = .exec b f c ∧ c.call = some (r, t)) ∨
    ∃ t, (x.shared.fibers f).ctx.call = some (r, t)

/-- A point of a call behind `Fiber::Yield`, before its end or `retry`. -/
def Code.resumed : Code κ N → Bool
  | .ioResume _ _ | .ioCheck _ => true
  | _ => false

lemma Ctx.resumed_code {c : Ctx κ N} {r : Io κ N} {t : Option ℕ} (h : c.call = some (r, t)) :
    c.code.resumed = true := by
  cases c with
  | «at» res =>
      cases res with
      | user => cases h
      | io => rfl
  | _ => cases h

/-- Calls are numbered, and the number of a call is that of one fiber. -/
structure Numbered (x : Sys κ n N) : Prop where
  lt : ∀ {f r}, x.Makes f r → r.info < x.shared.nextInfo
  fiber : ∀ {f f' r r'}, x.Makes f r → x.Makes f' r' → r.info = r'.info → f = f'

section Calls

variable {S : Setup κ n N} {x x' : Sys κ n N} {a : Act κ n N} {i : Fin n} {s s' : Shared κ N}
  {w w' : Worker κ N} {f k : ℕ} {c c' : Code κ N} {r : Io κ N} {t : Option ℕ}

/-- A fiber comes to a point of a call from another point of it, or begins the call. -/
lemma CallStep.origin (h : CallStep S s f c s' c' r t) :
    (∃ t', c.call = some (r, t')) ∨
      c.call = none ∧ r.info = s.nextInfo ∧ s'.nextInfo = s.nextInfo + 1 := by
  cases h with
  | start hinfo => exact .inr ⟨rfl, hinfo, rfl⟩
  | stay hcall => exact .inl ⟨t, hcall⟩
  | arm | register | resume | retry => exact .inl ⟨_, rfl⟩

lemma SysStep.exec_inv {b : Branch κ N} (h : SysStep S x a x')
    (hpc : (x'.workers i).pc = .exec b f c') :
    (x.workers i).pc = .exec b f c' ∨ ∃ ch, a = .worker i ch ∧
      ((x.workers i).pc = .swapIn b f ∧ c' = (x.shared.fibers f).ctx.code ∨
        ∃ c, (x.workers i).pc = .exec b f c ∧ CodeStep S x.shared f c x'.shared c') := by
  cases h with
  | @worker j ch s' w' hw =>
      by_cases hij : i = j
      · subst hij
        rw [Sys.put_workers_self] at hpc
        rcases hw.exec_inv hpc with ⟨hswap, hc, -⟩ | hcode
        · exact .inr ⟨ch, rfl, .inl ⟨hswap, hc⟩⟩
        · exact .inr ⟨ch, rfl, .inr hcode⟩
      · rw [Sys.put_workers_of_ne hij] at hpc
        exact .inl hpc
  | _ => exact .inl hpc

lemma SysStep.ctx_inv (h : SysStep S x a x') (hc : (x'.shared.fibers f).ctx.call = some (r, t)) :
    (x.shared.fibers f).ctx.call = some (r, t) ∨
      ∃ i b c, (x.workers i).pc = .exec b f c ∧ c.call = some (r, t) := by
  cases h with
  | @worker i ch s' w' hw =>
      rcases hw.ctx_inv hc with ⟨hsame, -⟩ | ⟨b, st, res, hpc, hctx, -⟩
      · exact .inl ((congrArg Ctx.call hsame).trans hc)
      · exact .inr ⟨i, b, _, hpc, (congrArg Ctx.call hctx).symm.trans hc⟩
  | @spawn g thr =>
      by_cases hf : f = x.shared.nextFiber
      · rw [hf, Shared.fibers_spawn] at hc
        cases hc
      · exact .inl (by rwa [Shared.fibers_spawn_of_ne hf] at hc)
  | _ => exact .inl hc

theorem SysStep.makes (h : SysStep S x a x') (hm : x'.Makes f r) :
    x.Makes f r ∨ ∃ i ch b c, a = .worker i ch ∧ (x.workers i).pc = .exec b f c ∧
      r.info = x.shared.nextInfo ∧ x'.shared.nextInfo = x.shared.nextInfo + 1 := by
  rcases hm with ⟨i, b, c, t, hpc, hc⟩ | ⟨t, hc⟩
  · rcases h.exec_inv hpc with hold | ⟨ch, rfl, ⟨-, rfl⟩ | ⟨c₀, hc₀, hcode⟩⟩
    · exact .inl (.inl ⟨i, b, c, t, hold, hc⟩)
    · rw [(Ctx.call_code _).1] at hc
      exact .inl (.inr ⟨t, hc⟩)
    · rcases (hcode.call_inv hc).origin with ⟨t', ht'⟩ | ⟨-, hinfo, hnext⟩
      · exact .inl (.inl ⟨i, b, c₀, t', hc₀, ht'⟩)
      · exact .inr ⟨i, ch, b, c₀, rfl, hc₀, hinfo, hnext⟩
  · rcases h.ctx_inv hc with hold | ⟨i, b, c, hpc, hcall⟩
    · exact .inl (.inr ⟨t, hold⟩)
    · exact .inl (.inl ⟨i, b, c, t, hpc, hcall⟩)

lemma SysStep.nextInfo (h : SysStep S x a x') : x.shared.nextInfo ≤ x'.shared.nextInfo := by
  cases h with
  | worker hw => exact hw.nextInfo
  | _ => exact le_rfl

lemma Numbered.step (h : Numbered x) (hs : SysStep S x a x') : Numbered x' where
  lt hm := by
    rcases hs.makes hm with hold | ⟨-, -, -, -, -, -, hinfo, hnext⟩
    · exact (h.lt hold).trans_le hs.nextInfo
    · omega
  fiber hm hm' hinfo := by
    rcases hs.makes hm with hold | ⟨i, ch, b, c, ha, hpc, hnew, -⟩ <;>
      rcases hs.makes hm' with hold' | ⟨i', ch', b', c', ha', hpc', hnew', -⟩
    · exact h.fiber hold hold' hinfo
    · have := h.lt hold
      omega
    · have := h.lt hold'
      omega
    · cases ha.symm.trans ha'
      cases hpc.symm.trans hpc'
      rfl

lemma Numbered.init : Numbered ({} : Sys κ n N) where
  lt := by
    rintro f r (⟨i, b, c, t, hpc, -⟩ | ⟨t, ht⟩)
    · cases hpc
    · cases ht
  fiber := by
    rintro f f' r r' (⟨i, b, c, t, hpc, -⟩ | ⟨t, ht⟩)
    · cases hpc
    · cases ht

lemma WorkerStep.cancelled (h : WorkerStep S i s w s' w') (hk : k < s.nextInfo)
    (hc : (s.infos k).cancelled = true) : (s'.infos k).cancelled = true := by
  have hset : ∀ {j : ℕ} {info : Info}, (k = j → info.cancelled = true) →
      (Function.update s.infos j info k).cancelled = true := by
    intro j info hj
    by_cases hkj : k = j
    · rw [hkj, Function.update_self]
      exact hj hkj
    · rwa [Function.update_of_ne hkj]
  cases h with
  | code hcode =>
      cases hcode with
      | io => exact hset fun hkj => absurd hkj hk.ne
      | timeoutAct => exact hset fun _ => rfl
      | ioEnd => exact hset fun hkj => hkj ▸ hc
      | event _ hs => rwa [(event_frame hs).infos]
      | evAdd => rwa [addEvent_frame.infos]
      | timerAdd hs => rwa [← congrArg (fun y => y.1.infos) hs]
      | _ => exact hc
  | eventsIo hs => rwa [(event_frame hs).infos]
  | _ => exact hc

lemma SysStep.cancelled (h : SysStep S x a x') (hk : k < x.shared.nextInfo)
    (hc : (x.shared.infos k).cancelled = true) : (x'.shared.infos k).cancelled = true := by
  cases h with
  | worker hw => exact hw.cancelled hk hc
  | _ => exact hc

/-- Behind `Fiber::Yield`, a call that has been timed out ends. -/
lemma CodeStep.returns (h : CodeStep S s f c s' c') (hres : c.resumed = true)
    (hcall : c.call = some (r, t)) (hcan : (s.infos r.info).cancelled = true) :
    c'.resumed = true ∨ c'.call = none := by
  cases h with
  | ioResumeNone | ioResumeSome => exact .inl rfl
  | ioEnd => exact .inr rfl
  | ioRetry hnot =>
      cases hcall
      rw [hcan] at hnot
      cases hnot
  | event hop => exact .inr (Code.call_eventOp hop).2
  | _ => cases hres

end Calls

/-! ### Calls whose descriptor has been closed -/

lemma closedCalls_append (log ext : List (Note N)) :
    closedCalls (log ++ ext) = closedCalls log ++ closedCalls ext := List.flatMap_append

lemma Sys.mem_blockedOn {x : Sys κ n N} {fd : Fin N} {k : ℕ} (h : k ∈ x.blockedOn fd) :
    ∃ f r, x.Makes f r ∧ r.info = k ∧ ∀ i, (x.workers i).pc.executing ≠ some f := by
  obtain ⟨f, -, hf⟩ := List.mem_filterMap.1 h
  split at hf
  · rename_i r t hctx
    split at hf
    · rename_i hb
      exact ⟨f, r, .inr ⟨t, by rw [hctx]; rfl⟩, Option.some.inj hf, hb.2.2.2⟩
    · cases hf
  · cases hf

lemma Sys.codeAt_eq_some {x : Sys κ n N} {a : Act κ n N} {y : Code κ N × Choice N}
    (h : x.codeAt a = some y) : ∃ i b f, a = .worker i y.2 ∧ (x.workers i).pc = .exec b f y.1 := by
  unfold codeAt at h
  split at h
  · split at h
    · rename_i i _ _ b f _ hpc
      cases h
      exact ⟨i, b, f, rfl, hpc⟩
    · cases h
  · cases h

namespace Recycling

variable {S : Setup (Point κ N) n N} {p : κ → FdOp κ N} {x x' : Recycling κ n N}
  {a : Act (Point κ N) n N} {k : ℕ}

/-- **What a step does** to the runtime and to the history. -/
lemma step_inv (h : x.step S p a = some x') :
    SysStep (S.runs p) x.sys a x'.sys ∧ (x'.log = x.log ∨
      ∃ y, x.sys.codeAt a = some y ∧ x'.log = x.log ++ x.notes p y) := by
  unfold step at h
  split at h
  · obtain ⟨y, hy, rfl⟩ := Option.map_eq_some_iff.1 h
    exact ⟨(Runtime.step_inv hy).2, .inl rfl⟩
  · rename_i c hc
    obtain ⟨d, -, hd⟩ := Option.bind_eq_some_iff.1 h
    obtain ⟨y, hy, rfl⟩ := Option.map_eq_some_iff.1 hd
    exact ⟨(Runtime.step_inv hy).2, .inr ⟨c, hc, rfl⟩⟩

/-- Calls are added to the closed ones where a task calls `close`, and then they are blocked. -/
lemma mem_closedCalls_notes {y : Code (Point κ N) N × Choice N}
    (h : k ∈ closedCalls (x.notes p y)) : ∃ k₀ fd, y.1 = .user k₀ ∧ k ∈ x.sys.blockedOn fd := by
  unfold notes at h
  split at h
  · rename_i k₀ ch
    split at h
    · rename_i fd next hp
      exact ⟨_, fd, rfl, by simpa [closedCalls] using h⟩
    · simp [closedCalls] at h
    · simp [closedCalls] at h
  · split at h <;> simp [closedCalls] at h
  · split at h
    · simp [closedCalls] at h
    · split at h <;> simp [closedCalls] at h
  · simp [closedCalls] at h

/-- The invariant of the runs in which closed calls time out first. -/
structure Sound (x : Recycling κ n N) : Prop where
  numbered : Numbered x.sys
  closed : ∀ k ∈ closedCalls x.log, k < x.sys.shared.nextInfo
  /-- A worker in a closed call is behind `Fiber::Yield`, and a timeout has been noted. -/
  returns : ∀ {i b f c r t}, (x.sys.workers i).pc = .exec b f c → c.call = some (r, t) →
    r.info ∈ closedCalls x.log → c.resumed = true ∧ (x.sys.shared.infos r.info).cancelled = true
  log : Justified Spared x.log

/-- A call that is not behind `Fiber::Yield` is none of the closed ones. -/
lemma Sound.not_closed (h : x.Sound) {i : Fin n} {b : Branch (Point κ N) N} {f : ℕ}
    {c : Code (Point κ N) N} {r : Io (Point κ N) N} {t : Option ℕ}
    (hpc : (x.sys.workers i).pc = .exec b f c) (hcall : c.call = some (r, t))
    (hc : c.resumed = false ∨ (x.sys.shared.infos r.info).cancelled = false) :
    r.info ∉ closedCalls x.log := fun hmem => by
  obtain ⟨hres, hcan⟩ := h.returns hpc hcall hmem
  rcases hc with hc | hc
  · rw [hres] at hc
    cases hc
  · rw [hcan] at hc
    cases hc

/-- The calls that are blocked when `close` is called are in no worker's hands after the step. -/
lemma Sound.not_blocked (h : x.Sound) (hs : SysStep S x.sys a x'.sys)
    {y : Code (Point κ N) N × Choice N} (hy : x.sys.codeAt a = some y) {k₀ : Point κ N}
    (hk₀ : y.1 = .user k₀) {fd : Fin N} {i : Fin n} {b : Branch (Point κ N) N} {f : ℕ}
    {c : Code (Point κ N) N} {r : Io (Point κ N) N} {t : Option ℕ}
    (hpc : (x'.sys.workers i).pc = .exec b f c) (hcall : c.call = some (r, t)) :
    r.info ∉ x.sys.blockedOn fd := fun hmem => by
  obtain ⟨f₀, r₀, hmakes, hinfo, hfree⟩ := Sys.mem_blockedOn hmem
  obtain ⟨j, b₀, f', ha, hpc₀⟩ := Sys.codeAt_eq_some hy
  rw [hk₀] at hpc₀
  rcases hs.exec_inv hpc with hold | ⟨ch, ha', ⟨hswap, -⟩ | ⟨c₀, hc₀, hcode⟩⟩
  · obtain rfl := h.numbered.fiber (.inl ⟨i, b, c, t, hold, hcall⟩) hmakes hinfo.symm
    exact hfree i (by rw [hold]; rfl)
  · cases ha.symm.trans ha'
    cases hpc₀.symm.trans hswap
  · cases ha.symm.trans ha'
    cases hpc₀.symm.trans hc₀
    rcases (hcode.call_inv hcall).origin with ⟨t', ht'⟩ | ⟨-, hnew, -⟩
    · cases ht'
    · have := h.numbered.lt hmakes
      omega

lemma Sound.justified_notes (h : x.Sound) {i : Fin n} {b : Branch (Point κ N) N} {f : ℕ}
    {c : Code (Point κ N) N} {ch : Choice N} (hpc : (x.sys.workers i).pc = .exec b f c) :
    Justified Spared (x.log ++ x.notes p (c, ch)) := by
  unfold notes
  split
  · split
    · exact h.log.snoc trivial
    · exact h.log.snoc trivial
    · rw [List.append_nil]
      exact h.log
  · rename_i r ch heq
    cases heq
    have hnot : r.info ∉ closedCalls x.log := h.not_closed hpc rfl (.inl rfl)
    have hissued : Justified Spared (x.log ++ [.issued r.info (x.desc.sockets r.fd)]) :=
      h.log.snoc hnot
    split
    · have hreturned := hissued.snoc (r := .returned r.info) (by
        simpa [Spared, closedCalls_append, closedCalls] using hnot)
      simpa using hreturned
    · exact hissued
  · rename_i r ch heq
    cases heq
    split
    · exact h.log.snoc trivial
    · rename_i hcan
      split
      · rw [List.append_nil]
        exact h.log
      · exact h.log.snoc (h.not_closed hpc rfl (.inr (by simpa using hcan)))
  · rw [List.append_nil]
    exact h.log

lemma Sound.step (h : x.Sound) (hg : TimesOutFirst x a) (hs : x.step S p a = some x') :
    x'.Sound := by
  obtain ⟨hsys, hlog⟩ := step_inv hs
  have hclosed : ∀ k ∈ closedCalls x'.log, k ∈ closedCalls x.log ∨
      ∃ y k₀ fd, x.sys.codeAt a = some y ∧ y.1 = .user k₀ ∧ k ∈ x.sys.blockedOn fd := by
    intro k hk
    rcases hlog with hlog | ⟨y, hy, hlog⟩
    · exact .inl (hlog ▸ hk)
    · rw [hlog, closedCalls_append] at hk
      refine (List.mem_append.1 hk).imp_right fun hk => ?_
      obtain ⟨k₀, fd, hk₀, hmem⟩ := mem_closedCalls_notes hk
      exact ⟨y, k₀, fd, hy, hk₀, hmem⟩
  refine ⟨h.numbered.step hsys, fun k hk => ?_, fun {i b f c r t} hpc hcall hmem => ?_, ?_⟩
  · rcases hclosed k hk with hold | ⟨-, -, fd, -, -, hmem⟩
    · exact (h.closed k hold).trans_le hsys.nextInfo
    · obtain ⟨f, r, hmakes, rfl, -⟩ := Sys.mem_blockedOn hmem
      exact (h.numbered.lt hmakes).trans_le hsys.nextInfo
  · rcases hclosed _ hmem with hold | ⟨y, k₀, fd, hy, hk₀, hblocked⟩
    swap
    · exact absurd hblocked (h.not_blocked hsys hy hk₀ hpc hcall)
    have hkeep := hsys.cancelled (h.closed _ hold)
    rcases hsys.exec_inv hpc with hsame | ⟨ch, rfl, ⟨hswap, rfl⟩ | ⟨c₀, hc₀, hcode⟩⟩
    · obtain ⟨hres, hcan⟩ := h.returns hsame hcall hold
      exact ⟨hres, hkeep hcan⟩
    · rw [(Ctx.call_code _).1] at hcall
      refine ⟨Ctx.resumed_code hcall, hkeep (hg r ?_ hold)⟩
      simp [Sys.resumes, hswap, hcall]
    · rcases (hcode.call_inv hcall).origin with ⟨t', ht'⟩ | ⟨-, hnew, -⟩
      · obtain ⟨hres, hcan⟩ := h.returns hc₀ ht' hold
        refine ⟨(hcode.returns hres ht' hcan).resolve_right ?_, hkeep hcan⟩
        rw [hcall]
        exact nofun
      · have := h.closed _ hold
        omega
  · rcases hlog with hlog | ⟨⟨c, ch⟩, hy, hlog⟩
    · exact hlog ▸ h.log
    · obtain ⟨i, b, f, -, hpc⟩ := Sys.codeAt_eq_some hy
      rw [hlog]
      exact h.justified_notes hpc

end Recycling

/-- **No call after `close`.** In every run in which calls whose descriptor has been closed under
them time out first, such a call makes no underlying call any more, and returns with an error. -/
theorem no_io_after_close {S : Setup (Point κ N) n N} {p : κ → FdOp κ N} {d : Descriptors N}
    {x : Recycling κ n N} (h : Reach (Recycling.step S p) TimesOutFirst { desc := d } x) :
    Justified Spared x.log := by
  have hinit : Recycling.Sound ({ desc := d } : Recycling κ n N) :=
    { numbered := Numbered.init
      closed := nofun
      returns := fun hpc => by cases hpc
      log := Justified.nil }
  exact (h.inv hinit fun _ hx hg hs => hx.step hg hs).log

/-! ### A call on a recycled descriptor -/

instance (x : Recycling κ n N) (a : Act (Point κ N) n N) : Decidable (TimesOutFirst x a) :=
  inferInstanceAs (Decidable (∀ r ∈ x.sys.resumes a, _ → _))

/-- Tasks that make a socket, read from it, and close it. -/
def tasks (timeout : Option ℕ) : ℕ → FdOp ℕ 1
  | 0 => .socket fun _ => 3
  | 1 => .base (.io 0 .read timeout true 3)
  | 2 => .close 0 3
  | _ => .base .ret

def alone : Setup (Point ℕ 1) 1 1 := .ofProg (fun _ => .ret) Nat.one_pos small_one

/-- The worker makes these choices, one after the other. -/
def picks (vs : List ℕ) : List (Act (Point ℕ 1) 1 1) := vs.map fun v => .worker 0 (.value v)

/-- The first task makes a socket; then, after `k` steps, the second finds that its `read` would
block. -/
def reads (ks : List ℕ) (k : ℕ) : List (Act (Point ℕ 1) 1 1) :=
  .schedule (ks.map .user) (-1) :: steps 0 6 ++ picks [0, 0] ++ steps 0 k ++ picks [1] ++
    steps 0 1 ++ [.worker 0 (.result .again)]

/-- The third task closes the socket, and another one gets the number for a new socket. -/
def closes : List (Act (Point ℕ 1) 1 1) :=
  picks [1] ++ steps 0 1 ++ picks [0, 0] ++ steps 0 13 ++ picks [0, 0]

theorem no_io_after_close_timed_out :
    ∃ x : Recycling ℕ 1 1,
      Reach (Recycling.step alone (tasks (some 5))) TimesOutFirst { desc := {} } x ∧
      x.log = [.opened 0 0, .issued 0 (some 0), .closed 0 [0], .opened 0 1, .failed 0] ∧
      Justified Spared x.log := by
  have h : (run (Recycling.step alone (tasks (some 5))) (fun x a => decide (TimesOutFirst x a))
      { desc := {} } (reads [0, 1] 12 ++ steps 0 17 ++
        [.schedule [.user 2, .user 0] (-1), .clock 5, .worker 0 (.poll [])] ++ steps 0 12 ++ closes ++
        steps 0 28)).any (fun x => decide (x.log =
          [.opened 0 0, .issued 0 (some 0), .closed 0 [0], .opened 0 1, .failed 0])) = true := by
    decide +kernel
  obtain ⟨x, hr, hx⟩ := exists_reach_of_run (fun _ _ => of_decide_eq_true) h
  exact ⟨x, hr, of_decide_eq_true hx, no_io_after_close hr⟩

/-- **A descriptor is recycled under a call.** The reader waits on the first socket, and after
`close` it makes its call on the second, which has the same number. -/
theorem recycled :
    ∃ x : Recycling ℕ 1 1, Reach (Recycling.step alone (tasks none)) Free {} x ∧
      x.log = [.opened 0 0, .issued 0 (some 0), .closed 0 [0], .opened 0 1, .issued 0 (some 1)] ∧
      ¬ Justified Spared x.log := by
  have h : (run (Recycling.step alone (tasks none)) (fun _ _ => true) {}
      (reads [0, 1, 2, 0] 13 ++ steps 0 14 ++ closes ++ steps 0 14 ++
        [.worker 0 (.result .again)])).any (fun x => decide (x.log =
          [.opened 0 0, .issued 0 (some 0), .closed 0 [0], .opened 0 1, .issued 0 (some 1)])) =
        true := by decide +kernel
  obtain ⟨x, hr, hx⟩ := exists_reach_of_run (G := Free) (fun _ _ _ => trivial) h
  have hlog := of_decide_eq_true hx
  refine ⟨x, hr, hlog, fun hj => ?_⟩
  rw [hlog] at hj
  have hspared := hj [.opened 0 0, .issued 0 (some 0), .closed 0 [0], .opened 0 1]
    (.issued 0 (some 1)) [] rfl
  exact hspared (by decide)

end Eva01.Runtime
