import Eva01.IOManager.Slots

/-!
The event mask of a context and the interest set of the kernel, over runs in which descriptors are
closed and their numbers used again.

`Kernel` is the epoll instance, with `epoll_ctl` as documented: `EPOLL_CTL_ADD` of a descriptor that
is in the interest set fails with `EEXIST`, `EPOLL_CTL_MOD` and `EPOLL_CTL_DEL` of one that is not
fail with `ENOENT`, and closing a descriptor takes it out. `World` puts the contexts beside it,
with the table of `FdManager` (only which numbers have an `FdCtx`) and the `close` calls under way.

`FdContext::events` has no initialiser, so a run starts with any masks. The hooked `close` cancels the
registered events only of a descriptor that has an `FdCtx`, that is one made by `socket` or `accept`,
and another thread may register an event between that and `close_f`: the mask then outlives the
registration in the kernel. The two sides agree in every run in which the context of every number
that is opened starts with `NONE` and `close_f` is only reached with an empty mask, and either one
is needed (`interest_agrees_iff_closed_clean`).
-/

namespace Eva01.IOManager

open Eva01.Lib.Runs

variable {N : ℕ} {φ γ : Type*}

/-! ### The kernel -/

inductive Errno
  | EEXIST
  | ENOENT
  | EBADF
  deriving DecidableEq, Repr

/-- The open descriptors, and for those in the interest set the events asked for. -/
structure Kernel (N : ℕ) where
  isOpen : Fin N → Bool := fun _ => false
  interest : Fin N → Option Events := fun _ => none

/-- `epoll_ctl(m_epfd, op, fd, event)`. -/
def Kernel.epollCtl (k : Kernel N) (fd : Fin N) (req : EpollOp × Events) :
    Except Errno (Kernel N) :=
  if !k.isOpen fd then .error .EBADF
  else
    match req.1, k.interest fd with
    | .add, none | .mod, some _ =>
        .ok { k with interest := Function.update k.interest fd (some req.2) }
    | .add, some _ => .error .EEXIST
    | .del, some _ => .ok { k with interest := Function.update k.interest fd none }
    | .mod, none | .del, none => .error .ENOENT

/-- `close_f(fd)`: the last reference goes, and with it the entry in the interest set. -/
def Kernel.closeF (k : Kernel N) (fd : Fin N) : Kernel N :=
  { isOpen := Function.update k.isOpen fd false, interest := Function.update k.interest fd none }

def Kernel.openF (k : Kernel N) (fd : Fin N) : Kernel N :=
  { k with isOpen := Function.update k.isOpen fd true }

/-! ### The two sides together -/

/-- The request an operation makes of `epoll_ctl`, if it gets as far as making one. -/
def Op.request (c : FdContext φ γ) : Op N φ γ → Option (EpollOp × Events)
  | .addEvent _ e _ _ => if c.events.has e then none else some (addRequest c e)
  | .delEvent _ e | .cancelEvent _ e =>
      if c.events.has e then some (leaveRequest (c.events.sub e)) else none
  | .cancelAll _ => if c.events = .none then none else some (.del, .none)
  | .scheduleEvent _ r =>
      if c.events.inter (triggered c r) = .none then none
      else some (leaveRequest (c.events.diff (triggered c r)))

/-- How far a hooked `close` has come: the next thing it does. -/
inductive Closing
  /-- `iom->cancelAll(fd)` -/
  | cancelAll
  /-- `FdMgr::del(fd)` -/
  | del
  /-- `close_f(fd)` -/
  | closeF
  deriving DecidableEq, Repr

structure World (N : ℕ) (φ γ : Type*) where
  fds : Fds N φ γ := {}
  kernel : Kernel N := {}
  /-- The numbers for which `FdManager` has an `FdCtx`. -/
  managed : Fin N → Bool := fun _ => false
  /-- The `close` calls under way. -/
  closing : List (Fin N × Closing) := []

/-- The contexts are made, with what their memory holds for masks, and no descriptor is open. -/
def World.start (masks : Fin N → Events) : World N φ γ where
  fds := { ctx := fun fd => { events := masks fd } }

/-- The actions: an event operation; a new descriptor under a free number, by `socket` or `accept`
(which make an `FdCtx`) or by `pipe` or `open` (which do not); the beginning of a hooked `close`,
which looks the `FdCtx` up, and its further steps. -/
inductive WorldAct (N : ℕ) (φ γ : Type*)
  | op (o : Op N φ γ)
  | openFd (fd : Fin N) (socket : Bool)
  | close (fd : Fin N)
  | closeNext (fd : Fin N) (at_ : Closing)

/-- An event operation: the request goes to the kernel, its result to the section. -/
def World.apply (w : World N φ γ) (o : Op N φ γ) : Option (World N φ γ) :=
  let c := w.fds.ctx o.fd
  let (k, rt) :=
    match o.request c with
    | none => (w.kernel, true)
    | some req =>
        match w.kernel.epollCtl o.fd req with
        | .ok k => (k, true)
        | .error _ => (w.kernel, false)
  match o.applyCtl c w.fds.pending rt with
  | .error _ => none
  | .ok out => some { w with fds := w.fds.put o.fd out, kernel := k }

def World.step (w : World N φ γ) : WorldAct N φ γ → Option (World N φ γ)
  | .op o => w.apply o
  | .openFd fd socket =>
      if w.kernel.isOpen fd then none
      else some { w with kernel := w.kernel.openF fd
                         managed := Function.update w.managed fd (w.managed fd || socket) }
  | .close fd =>
      some { w with closing := (fd, if w.managed fd then .cancelAll else .closeF) :: w.closing }
  | .closeNext fd c =>
      if (fd, c) ∉ w.closing then none
      else
        let rest := w.closing.erase (fd, c)
        match c with
        | .cancelAll => (w.apply (.cancelAll fd)).map fun w => { w with closing := (fd, .del) :: rest }
        | .del => some { w with managed := Function.update w.managed fd false
                                closing := (fd, .closeF) :: rest }
        | .closeF => some { w with kernel := w.kernel.closeF fd, closing := rest }

/-! ### Agreement -/

/-- What the interest set holds for a mask: an empty mask is not in it. -/
def entry (m : Events) : Option Events := if m = .none then none else some m

/-- For every open descriptor the interest set holds the events of its context. -/
def Agrees (w : World N φ γ) : Prop :=
  ∀ fd, w.kernel.isOpen fd = true → w.kernel.interest fd = entry (w.fds.ctx fd).events

/-- No request of an event operation fails with `EEXIST` or `ENOENT`. -/
def RequestsValid (w : World N φ γ) : Prop :=
  ∀ (o : Op N φ γ) req err, o.request (w.fds.ctx o.fd) = some req →
    w.kernel.epollCtl o.fd req = .error err → err = .EBADF

/-- A descriptor is only closed when none of its events is registered. -/
def ClosedClean (w : World N φ γ) : WorldAct N φ γ → Prop
  | .closeNext fd .closeF => (w.fds.ctx fd).events = .none
  | _ => True

/-- The context of a number that is opened has started with `NONE`. -/
def StartsNone (masks : Fin N → Events) : WorldAct N φ γ → Prop
  | .openFd fd _ => masks fd = .none
  | _ => True

/-- The mask an operation leaves when it succeeds. -/
def Op.after (c : FdContext φ γ) (o : Op N φ γ) : Events :=
  match o with
  | .addEvent _ e _ _ => c.events.add e
  | _ => c.events.diff (o.taken c)

/-- The invariant behind `Agrees`, for the masks that a run starts with. -/
structure Synced (masks : Fin N → Events) (w : World N φ γ) : Prop where
  /-- the interest set holds the masks of the contexts that started with `NONE` -/
  interest : ∀ fd, masks fd = .none → w.kernel.interest fd = entry (w.fds.ctx fd).events
  /-- nothing is registered for such a number while it is free -/
  closed : ∀ fd, masks fd = .none → w.kernel.isOpen fd = false → (w.fds.ctx fd).events = .none
  /-- the other numbers are not used -/
  unused : ∀ fd, masks fd ≠ .none → w.kernel.isOpen fd = false

lemma add_ne_none (m : Events) (e : Event) : m.add e ≠ .none := fun h => by
  have := Events.has_add_self m e
  rw [h, Events.has_none] at this
  cases this

lemma ne_none_of_has {m : Events} {e : Event} (h : m.has e = true) : m ≠ .none := by
  rintro rfl
  simp at h

lemma none_inter (m : Events) : Events.none.inter m = .none := rfl

lemma diff_inter (a b : Events) : a.diff (a.inter b) = a.diff b :=
  Events.ext_has fun e => by
    rw [Events.has_diff, Events.has_diff, Events.has_inter]
    cases a.has e <;> simp

lemma epollCtl_leave {k : Kernel N} {fd : Fin N} {m : Events} (left : Events)
    (hopen : k.isOpen fd = true)
    (hin : k.interest fd = entry m) (hm : m ≠ .none) :
    k.epollCtl fd (leaveRequest left) =
      .ok { k with interest := Function.update k.interest fd (entry left) } := by
  have hin' : k.interest fd = some m := by rw [hin, entry, if_neg hm]
  by_cases hl : left = .none
  · simp [Kernel.epollCtl, leaveRequest, hopen, hin', hl, entry]
  · simp [Kernel.epollCtl, leaveRequest, hopen, hin', hl, entry]

lemma epollCtl_add {k : Kernel N} {fd : Fin N} {c : FdContext φ γ} {e : Event}
    (hopen : k.isOpen fd = true) (hin : k.interest fd = entry c.events) :
    k.epollCtl fd (addRequest c e) =
      .ok { k with interest := Function.update k.interest fd (entry (c.events.add e)) } := by
  have hadd : entry (c.events.add e) = some (c.events.add e) := if_neg (add_ne_none _ _)
  by_cases hm : c.events = .none
  · have hin' : k.interest fd = none := by rw [hin, entry, if_pos hm]
    rw [hadd]
    simp [Kernel.epollCtl, addRequest, hopen, hin', hm]
  · have hin' : k.interest fd = some c.events := by rw [hin, entry, if_neg hm]
    rw [hadd]
    simp [Kernel.epollCtl, addRequest, hopen, hin', hm]

/-- **The choice of the request.** On an open descriptor whose entry is its mask, every request
succeeds and makes the entry the mask that the operation leaves. -/
theorem request_valid {k : Kernel N} {c : FdContext φ γ} {o : Op N φ γ} {req : EpollOp × Events}
    (hreq : o.request c = some req) (hopen : k.isOpen o.fd = true)
    (hin : k.interest o.fd = entry c.events) :
    k.epollCtl o.fd req =
      .ok { k with interest := Function.update k.interest o.fd (entry (o.after c)) } := by
  cases o with
  | addEvent fd e func self =>
      simp only [Op.request] at hreq
      split at hreq <;> cases hreq
      exact epollCtl_add hopen hin
  | delEvent fd e | cancelEvent fd e =>
      simp only [Op.request] at hreq
      split at hreq <;> cases hreq
      rename_i he
      rw [epollCtl_leave _ hopen hin (ne_none_of_has he)]
      simp only [Op.after, Op.taken, diff_inter, Events.diff_single]
  | cancelAll fd =>
      simp only [Op.request] at hreq
      split at hreq <;> cases hreq
      rename_i he
      have := epollCtl_leave .none hopen hin he
      simp only [Op.after, Op.taken, Events.diff_self]
      exact this
  | scheduleEvent fd r =>
      simp only [Op.request] at hreq
      split at hreq <;> cases hreq
      rename_i he
      have hne : c.events ≠ .none := by
        intro h
        rw [h, none_inter] at he
        exact he rfl
      rw [epollCtl_leave _ hopen hin hne]
      simp only [Op.after, Op.taken, diff_inter]

theorem apply_after {c : FdContext φ γ} {pending : ℕ} {o : Op N φ γ} {out : Outcome φ γ}
    (h : o.apply c pending = .ok out) : out.ctx.events = o.after c := by
  cases hop : o.isAdd with
  | false =>
      rw [(apply_taken hop h).1]
      cases o with
      | addEvent => cases hop
      | delEvent | cancelEvent | cancelAll | scheduleEvent => rfl
  | true =>
      cases o with
      | addEvent fd e func self =>
          obtain ⟨-, -, rfl⟩ := addEvent_apply_ok h
          simp [Op.after]
      | delEvent | cancelEvent | cancelAll | scheduleEvent => cases hop

theorem after_of_no_request {c : FdContext φ γ} {pending : ℕ} {o : Op N φ γ} {out : Outcome φ γ}
    (hreq : o.request c = none) (h : o.apply c pending = .ok out) : o.after c = c.events := by
  cases o with
  | addEvent fd e func self =>
      obtain ⟨he, -, -⟩ := addEvent_apply_ok h
      simp [Op.request, he] at hreq
  | delEvent fd e | cancelEvent fd e =>
      have he : c.events.has e = false := by
        simp only [Op.request] at hreq
        split at hreq
        · cases hreq
        · rename_i he
          simpa using he
      simp only [Op.after, Op.taken, inter_single_of_not_has he, Events.diff_none]
  | cancelAll fd =>
      have he : c.events = .none := by simpa [Op.request] using hreq
      simp only [Op.after, Op.taken, he, Events.diff_none]
  | scheduleEvent fd r =>
      have he : c.events.inter (triggered c r) = .none := by simpa [Op.request] using hreq
      simp only [Op.after, Op.taken, he, Events.diff_none]

/-! ### One step -/

/-- What an event operation can do. -/
inductive Applied (w : World N φ γ) (o : Op N φ γ) : World N φ γ → Prop
  | idle {out : Outcome φ γ} : o.request (w.fds.ctx o.fd) = none →
      o.apply (w.fds.ctx o.fd) w.fds.pending = .ok out →
      Applied w o { w with fds := w.fds.put o.fd out }
  | accepted {req : EpollOp × Events} {k : Kernel N} {out : Outcome φ γ} :
      o.request (w.fds.ctx o.fd) = some req → w.kernel.epollCtl o.fd req = .ok k →
      o.apply (w.fds.ctx o.fd) w.fds.pending = .ok out →
      Applied w o { w with fds := w.fds.put o.fd out, kernel := k }
  | refused {req : EpollOp × Events} {err : Errno} {out : Outcome φ γ} :
      o.request (w.fds.ctx o.fd) = some req → w.kernel.epollCtl o.fd req = .error err →
      o.applyCtl (w.fds.ctx o.fd) w.fds.pending false = .ok out →
      Applied w o { w with fds := w.fds.put o.fd out }

section Step

variable {masks : Fin N → Events} {w w' : World N φ γ} {o : Op N φ γ}

theorem apply_inv (h : w.apply o = some w') : Applied w o w' := by
  simp only [World.apply] at h
  cases hreq : o.request (w.fds.ctx o.fd) with
  | none =>
      simp only [hreq] at h
      split at h
      · cases h
      · rename_i out hout
        cases h
        exact .idle hreq hout
  | some req =>
      cases hk : w.kernel.epollCtl o.fd req with
      | ok k =>
          simp only [hreq, hk] at h
          split at h
          · cases h
          · rename_i out hout
            cases h
            exact .accepted hreq hk hout
      | error err =>
          simp only [hreq, hk] at h
          split at h
          · cases h
          · rename_i out hout
            cases h
            exact .refused hreq hk hout

lemma epollCtl_closed {k : Kernel N} {fd : Fin N} (hfd : k.isOpen fd = false)
    (req : EpollOp × Events) : k.epollCtl fd req = .error .EBADF := by
  simp [Kernel.epollCtl, hfd]

/-- On a closed descriptor with an empty mask only `addEvent` makes a request, and it asserts the
result. -/
lemma refused_aborts {c : FdContext φ γ} {req : EpollOp × Events} (pending : ℕ)
    (hnone : c.events = .none) (hreq : o.request c = some req) :
    ∃ a, o.applyCtl c pending false = .error a := by
  cases o with
  | addEvent fd e func self => simp [Op.applyCtl, addEvent, addEventTest, hnone]
  | delEvent | cancelEvent | cancelAll | scheduleEvent =>
      simp [Op.request, hnone, none_inter] at hreq

lemma Synced.put {out : Outcome φ γ} (hw : Synced masks w)
    (hout : o.apply (w.fds.ctx o.fd) w.fds.pending = .ok out)
    (hclosed : w.kernel.isOpen o.fd = false → o.after (w.fds.ctx o.fd) = .none) :
    Synced masks { w with
      fds := w.fds.put o.fd out
      kernel := { w.kernel with
        interest := Function.update w.kernel.interest o.fd
          (entry (o.after (w.fds.ctx o.fd))) } } := by
  refine ⟨fun fd hm => ?_, fun fd hm hfd => ?_, hw.unused⟩
  · by_cases hfd : fd = o.fd
    · subst hfd
      simp [Fds.put, apply_after hout]
    · simpa [Fds.put, Function.update_of_ne hfd] using hw.interest fd hm
  · by_cases hfd' : fd = o.fd
    · subst hfd'
      simpa [Fds.put, apply_after hout] using hclosed hfd
    · simpa [Fds.put, Function.update_of_ne hfd'] using hw.closed fd hm hfd

/-- The context of a number that is not used may hold anything. -/
lemma Synced.put_unused {fd : Fin N} (hw : Synced masks w) (hu : masks fd ≠ .none)
    (out : Outcome φ γ) : Synced masks { w with fds := w.fds.put fd out } := by
  refine ⟨fun fd' hm => ?_, fun fd' hm hfd' => ?_, hw.unused⟩
  · have hne : fd' ≠ fd := fun heq => hu (heq ▸ hm)
    simpa [Fds.put, Function.update_of_ne hne] using hw.interest fd' hm
  · have hne : fd' ≠ fd := fun heq => hu (heq ▸ hm)
    simpa [Fds.put, Function.update_of_ne hne] using hw.closed fd' hm hfd'

theorem apply_synced (hw : Synced masks w) (h : w.apply o = some w') : Synced masks w' := by
  by_cases hm : masks o.fd = .none
  · have hin := hw.interest o.fd hm
    cases apply_inv h with
    | @idle out hreq hout =>
        -- the mask stays, and with it the entry
        have hafter := after_of_no_request hreq hout
        have hsame := hw.put hout fun hfd => hafter.trans (hw.closed _ hm hfd)
        rwa [hafter, ← hin, Function.update_eq_self] at hsame
    | @accepted req k out hreq hk hout =>
        have hopen : w.kernel.isOpen o.fd = true := by
          by_contra hfd
          rw [epollCtl_closed (by simpa using hfd)] at hk
          cases hk
        rw [request_valid hreq hopen hin] at hk
        cases hk
        exact hw.put hout fun hfd => absurd hopen (by simp [hfd])
    | @refused req err out hreq hk hout =>
        cases hopen : w.kernel.isOpen o.fd with
        | true =>
            rw [request_valid hreq hopen hin] at hk
            cases hk
        | false =>
            obtain ⟨a, ha⟩ := refused_aborts w.fds.pending (hw.closed _ hm hopen) hreq
            rw [ha] at hout
            cases hout
  · cases apply_inv h with
    | idle | refused => exact hw.put_unused hm _
    | @accepted req k out hreq hk hout =>
        -- the number is not open, so the kernel refuses
        rw [epollCtl_closed (hw.unused _ hm)] at hk
        cases hk

lemma Synced.openF {fd : Fin N} (hw : Synced masks w) (hm : masks fd = .none) :
    Synced masks { w with kernel := w.kernel.openF fd } := by
  refine ⟨hw.interest, fun fd' hm' hfd' => ?_, fun fd' hm' => ?_⟩
  · by_cases hfd : fd' = fd
    · subst hfd
      simp [Kernel.openF] at hfd'
    · exact hw.closed fd' hm' (by simpa [Kernel.openF, Function.update_of_ne hfd] using hfd')
  · have hfd : fd' ≠ fd := fun heq => hm' (heq ▸ hm)
    simpa [Kernel.openF, Function.update_of_ne hfd] using hw.unused fd' hm'

/-- The kernel takes the entry out of the interest set, and the mask is empty already. -/
lemma Synced.closeF {fd : Fin N} (hw : Synced masks w) (hnone : (w.fds.ctx fd).events = .none) :
    Synced masks { w with kernel := w.kernel.closeF fd } := by
  refine ⟨fun fd' hm => ?_, fun fd' hm hfd' => ?_, fun fd' hm => ?_⟩
  all_goals by_cases hfd : fd' = fd
  · subst hfd
    simp [Kernel.closeF, hnone, entry]
  · simpa [Kernel.closeF, Function.update_of_ne hfd] using hw.interest fd' hm
  · exact hfd ▸ hnone
  · exact hw.closed fd' hm (by simpa [Kernel.closeF, Function.update_of_ne hfd] using hfd')
  · simp [Kernel.closeF, hfd]
  · simpa [Kernel.closeF, Function.update_of_ne hfd] using hw.unused fd' hm

theorem step_synced {a : WorldAct N φ γ} (hw : Synced masks w) (hclean : ClosedClean w a)
    (hstart : StartsNone masks a) (h : w.step a = some w') : Synced masks w' := by
  cases a with
  | op o => exact apply_synced hw h
  | openFd fd socket =>
      simp only [World.step] at h
      split at h <;> cases h
      obtain ⟨hin, hcl, hun⟩ := hw.openF hstart
      exact ⟨hin, hcl, hun⟩
  | close fd =>
      cases h
      exact ⟨hw.interest, hw.closed, hw.unused⟩
  | closeNext fd c =>
      simp only [World.step] at h
      split at h
      · cases h
      · cases c with
        | cancelAll =>
            obtain ⟨w₁, hw₁, rfl⟩ := Option.map_eq_some_iff.1 h
            have := apply_synced hw hw₁
            exact ⟨this.interest, this.closed, this.unused⟩
        | del =>
            cases h
            exact ⟨hw.interest, hw.closed, hw.unused⟩
        | closeF =>
            cases h
            obtain ⟨hin, hcl, hun⟩ := hw.closeF hclean
            exact ⟨hin, hcl, hun⟩

/-! ### Whole runs -/

lemma Synced.agrees (hw : Synced masks w) : Agrees w := fun fd hopen => by
  refine hw.interest fd ?_
  by_contra hm
  rw [hw.unused fd hm] at hopen
  cases hopen

lemma Agrees.requestsValid (hw : Agrees w) : RequestsValid w := by
  intro o req err hreq herr
  cases hopen : w.kernel.isOpen o.fd with
  | true =>
      rw [request_valid hreq hopen (hw _ hopen)] at herr
      cases herr
  | false =>
      rw [epollCtl_closed hopen] at herr
      cases herr
      rfl

lemma synced_start (masks : Fin N → Events) : Synced masks (World.start masks : World N φ γ) where
  interest fd hm := by simp [World.start, hm, entry]
  closed fd hm _ := by simp [World.start, hm]
  unused _ _ := rfl

end Step

/-- The first descriptor that is opened: the two sides agree afterwards exactly if its context has
started with `NONE`. -/
theorem open_agrees_iff {masks : Fin N → Events} {w : World N φ γ} {fd : Fin N} {socket : Bool}
    (h : (World.start masks).step (.openFd fd socket) = some w) :
    Agrees w ↔ masks fd = .none := by
  simp only [World.step] at h
  split at h <;> cases h
  constructor
  · intro h
    have hfd := h fd (by simp [Kernel.openF])
    by_contra hne
    simp [Kernel.openF, World.start, entry, hne] at hfd
  · intro hnone fd' hopen
    have hfd : fd' = fd := by
      by_contra hfd
      simp [Kernel.openF, World.start, Function.update_of_ne hfd] at hopen
    simp [Kernel.openF, World.start, entry, hfd, hnone]

/-- Closing an open descriptor and using its number again: the two sides agree afterwards exactly
if nothing was registered. -/
theorem reuse_agrees_iff {w w₁ w₂ : World N φ γ} {fd : Fin N} {socket : Bool} (hw : Agrees w)
    (h₁ : w.step (.closeNext fd .closeF) = some w₁) (h₂ : w₁.step (.openFd fd socket) = some w₂) :
    Agrees w₂ ↔ (w.fds.ctx fd).events = .none := by
  simp only [World.step] at h₁
  split at h₁ <;> cases h₁
  simp only [World.step] at h₂
  split at h₂ <;> cases h₂
  constructor
  · intro h
    have hfd := h fd (by simp [Kernel.openF])
    by_contra hne
    simp [Kernel.openF, Kernel.closeF, entry, hne] at hfd
  · intro hnone fd' hopen
    by_cases hfd : fd' = fd
    · subst hfd
      simp [Kernel.openF, Kernel.closeF, entry, hnone]
    · simp only [Kernel.openF, Kernel.closeF, Function.update_of_ne hfd] at hopen ⊢
      exact hw fd' hopen

/-- **The masks and the interest set agree as long as masks start and descriptors are closed clean.**
In every run, from any masks, in which the context of every number that is opened has started with
`NONE` and `close_f` only meets descriptors with no event registered, the two sides agree in every
state and no request is refused with `EEXIST` or `ENOENT`. And either is needed: one descriptor
opened with another mask breaks the agreement, and so does one `close_f` on a descriptor with an
event registered, once the number is used again. -/
theorem interest_agrees_iff_closed_clean :
    (∀ (masks : Fin N → Events) (w : World N φ γ),
      Reach World.step (fun w a => ClosedClean w a ∧ StartsNone masks a) (World.start masks) w →
      Agrees w ∧ RequestsValid w) ∧
    (∀ (masks : Fin N → Events) (w : World N φ γ) (fd : Fin N) (socket : Bool),
      (World.start masks).step (.openFd fd socket) = some w →
      (Agrees w ↔ StartsNone masks (.openFd fd socket : WorldAct N φ γ))) ∧
    (∀ (w w₁ w₂ : World N φ γ) (fd : Fin N) (socket : Bool), Agrees w →
      w.step (.closeNext fd .closeF) = some w₁ → w₁.step (.openFd fd socket) = some w₂ →
      (Agrees w₂ ↔ ClosedClean w (.closeNext fd .closeF))) := by
  refine ⟨fun masks w hw => ?_, fun masks w fd socket h => open_agrees_iff h,
    fun w w₁ w₂ fd socket hw h₁ h₂ => reuse_agrees_iff hw h₁ h₂⟩
  have hsync : Synced masks w :=
    hw.inv (synced_start masks) fun _ hi hg hs => step_synced hi hg.1 hg.2 hs
  exact ⟨hsync.agrees, hsync.agrees.requestsValid⟩

/-- A pipe has no `FdCtx`: closing it with `READ` registered leaves the mask behind, and the next
`addEvent` under the same number asks for `EPOLL_CTL_MOD`, fails with `ENOENT` and aborts. -/
theorem pipe_closed_registered :
    ∃ w : World 1 ℕ String, Reach World.step Free {} w ∧ ¬ Agrees w ∧ ¬ RequestsValid w ∧
      w.step (.op (.addEvent 0 .write none 7)) = none := by
  have h : (run World.step (fun _ _ => true) ({} : World 1 ℕ String)
      [.openFd 0 false, .op (.addEvent 0 .read none 7), .close 0, .closeNext 0 .closeF,
        .openFd 0 false]).any (fun w =>
        w.kernel.isOpen 0 && w.kernel.interest 0 == none && (w.fds.ctx 0).events == ⟨true, false⟩ &&
        (w.step (.op (.addEvent 0 .write none 7))).isNone) = true := by decide
  obtain ⟨w, hw, hp⟩ := exists_reach_of_run (G := Free) (fun _ _ _ => trivial) h
  simp only [Bool.and_eq_true, beq_iff_eq, Option.isNone_iff_eq_none] at hp
  obtain ⟨⟨⟨hopen, hin⟩, hev⟩, hstep⟩ := hp
  refine ⟨w, hw, fun hag => ?_, fun hval => ?_, hstep⟩
  · rw [hag 0 hopen, hev] at hin
    exact absurd hin (by decide)
  · have hreq : (Op.addEvent 0 .write none 7 : Op 1 ℕ String).request (w.fds.ctx 0) =
        some (.mod, ⟨true, true⟩) := by simp [Op.request, hev, addRequest, Events.has, Events.add,
          Events.none]
    have herr : w.kernel.epollCtl 0 (.mod, ⟨true, true⟩) = .error .ENOENT := by
      simp [Kernel.epollCtl, hopen, hin]
    exact absurd (hval (.addEvent 0 .write none 7) _ .ENOENT hreq herr) (by decide)

end Eva01.IOManager
