import Eva01.IOManager.Epoll
import Eva01.Scheduler.Tasks

/-!
What the event operations do when `epoll_ctl` fails.

All five make their request before they change anything, and what they change is the context of the
descriptor, `m_pending_count` and the task list. `cancelAll` and `scheduleEvent` test the result and
return false. `addEvent`, `delEvent` and `cancelEvent` assert it, so that on a failure there is no
state behind the call and nothing that `do_io` or `connect_with_timeout` could test
(`failure_reported_iff`). The cause of the failure does not matter.
-/

namespace Eva01.IOManager

open Eva01.Scheduler (scheduleRange)

variable {N : ℕ} {φ γ : Type*}

/-- The contexts with `m_pending_count`, and the task list. -/
structure Manager (N : ℕ) (φ γ : Type*) where
  fds : Fds N φ γ := {}
  tasks : List (Scheduler.Task (Target φ γ)) := []

/-- An operation, with the success of its `epoll_ctl` call for `rt`: the state behind it and the value
it returns. -/
def Manager.perform (m : Manager N φ γ) (op : Op N φ γ) (rt : Bool) :
    Except Assertion (Manager N φ γ × Bool) :=
  match op.applyCtl (m.fds.ctx op.fd) m.fds.pending rt with
  | .error a => .error a
  | .ok out =>
      .ok ({ fds := m.fds.put op.fd out, tasks := (scheduleRange m.tasks out.targets (-1)).1 }, out.ret)

/-- The operation tests the result of `epoll_ctl` instead of asserting it. -/
def Op.testsCtl : Op N φ γ → Bool
  | .cancelAll _ | .scheduleEvent _ _ => true
  | .addEvent _ _ _ _ | .delEvent _ _ | .cancelEvent _ _ => false

variable {m : Manager N φ γ} {op : Op N φ γ} {c : FdContext φ γ} {pending : ℕ}

/-- A section whose request fails: it has changed nothing and returns false, or its assertion fails.
-/
lemma applyCtl_failed (hreq : (op.request c).isSome) :
    op.applyCtl c pending false =
      if op.testsCtl then .ok { ctx := c, pending := pending, ret := false }
      else .error .epollCtl := by
  cases op with
  | addEvent fd e func self =>
      have he : c.events.has e = false := by
        by_contra he
        simp [Op.request, he] at hreq
      simp [Op.applyCtl, addEventTest, he, addEvent, Op.testsCtl]
  | delEvent fd e =>
      have he : c.events.has e = true := by
        by_contra he
        simp [Op.request, he] at hreq
      simp [Op.applyCtl, delEvent, he, Op.testsCtl]
  | cancelEvent fd e =>
      have he : c.events.has e = true := by
        by_contra he
        simp [Op.request, he] at hreq
      simp [Op.applyCtl, cancelEvent, he, Op.testsCtl]
  | cancelAll fd => simp [Op.applyCtl, cancelAll, Op.testsCtl]
  | scheduleEvent fd r => simp [Op.applyCtl, scheduleEvent, Op.testsCtl]

lemma Fds.put_self (s : Fds N φ γ) (fd : Fin N) {o : Outcome φ γ} (hctx : o.ctx = s.ctx fd)
    (hpending : o.pending = s.pending) : s.put fd o = s := by
  unfold put
  rw [hctx, hpending, Function.update_eq_self]

/-- **A failed `epoll_ctl` is reported by two of the five operations.** In any state, on any
descriptor, an operation whose `epoll_ctl` call fails returns false and leaves the masks, the slots,
the count and the task list as they were if and only if it is `cancelAll` or `scheduleEvent`. -/
theorem failure_reported_iff (m : Manager N φ γ) (op : Op N φ γ)
    (hreq : (op.request (m.fds.ctx op.fd)).isSome) :
    m.perform op false = .ok (m, false) ↔ op.testsCtl = true := by
  unfold Manager.perform
  rw [applyCtl_failed hreq]
  cases htest : op.testsCtl with
  | false => simp
  | true =>
      have hput : m.fds.put op.fd { ctx := m.fds.ctx op.fd, pending := m.fds.pending, ret := false } =
          m.fds := m.fds.put_self op.fd rfl rfl
      simp [hput, scheduleRange]

/-- A descriptor with `READ` registered for the fiber 7. -/
def waiting : Manager 1 ℕ ℕ :=
  { fds := { ctx := fun _ => { read := slotFor none 7, events := .single .read }, pending := 1 } }

theorem failure_reported_cancelAll :
    ((Op.cancelAll 0 : Op 1 ℕ ℕ).request (waiting.fds.ctx 0)).isSome = true ∧
      waiting.perform (.cancelAll 0) false = .ok (waiting, false) :=
  ⟨by decide, (failure_reported_iff waiting (.cancelAll 0) (by decide)).2 rfl⟩

/-- **A failed `epoll_ctl` ends the process** in `addEvent` for another event, in `delEvent` and in
`cancelEvent`; each of the three gets as far as making the request. -/
theorem failure_asserted :
    (((Op.addEvent 0 .write none 8 : Op 1 ℕ ℕ).request (waiting.fds.ctx 0)).isSome = true ∧
      waiting.perform (.addEvent 0 .write none 8) false = .error .epollCtl) ∧
    (((Op.delEvent 0 .read : Op 1 ℕ ℕ).request (waiting.fds.ctx 0)).isSome = true ∧
      waiting.perform (.delEvent 0 .read) false = .error .epollCtl) ∧
    (((Op.cancelEvent 0 .read : Op 1 ℕ ℕ).request (waiting.fds.ctx 0)).isSome = true ∧
      waiting.perform (.cancelEvent 0 .read) false = .error .epollCtl) :=
  ⟨⟨rfl, rfl⟩, ⟨rfl, rfl⟩, ⟨rfl, rfl⟩⟩

end Eva01.IOManager
