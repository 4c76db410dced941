import Eva01.Hook.FdManager
import Eva01.IOManager.FdContext
import Eva01.Lib.Interact

/-!
The interposed functions of `hook.cpp`.

Each is a program whose outside is the rest: the functions of the C library behind the `_f` pointers,
the memory that pointer arguments point to, and the scheduler with its timers and events. What it
asks of them is its trace. Its local data are the table of `FdManager` and `errno`. A wait is a
request as well: `Fiber::Yield` is answered when the fiber is resumed, and the outside then shows
what the timeout callback has left in `tinfo->cancelled`.

`Sys` names the underlying calls with their arguments, and `hook` is the interposed function for
each; `plain` makes the underlying call and nothing else. The loop of `do_io` is followed for so
many rounds (`fuel`).
-/

namespace Eva01.Hook

open Eva01.Lib Eva01.Lib.Interact
open Eva01.IOManager (Event)

/-! ### Requests -/

abbrev Ptr := ℕ

/-- The commands of `fcntl` whose argument the switch reads as an `int`. -/
inductive IntCmd
  | F_DUPFD
  | F_DUPFD_CLOEXEC
  | F_SETFD
  | F_SETOWN
  | F_SETSIG
  | F_SETLEASE
  | F_NOTIFY
  | F_SETPIPE_SZ
  deriving DecidableEq, Repr

/-- The commands without an argument. -/
inductive GetCmd
  | F_GETFD
  | F_GETOWN
  | F_GETSIG
  | F_GETLEASE
  | F_GETPIPE_SZ
  deriving DecidableEq, Repr

/-- The commands with a `struct flock*`. -/
inductive LockCmd
  | F_SETLK
  | F_SETLKW
  | F_GETLK
  deriving DecidableEq, Repr

/-- The commands with a `struct f_owner_exlock*`. -/
inductive OwnerCmd
  | F_GETOWN_EX
  | F_SETOWN_EX
  deriving DecidableEq, Repr

/-- A command of `fcntl` with the argument that is passed for it. -/
inductive Fcntl
  | setfl (flags : BitVec 32)
  | getfl
  | int (cmd : IntCmd) (arg : ℤ)
  | get (cmd : GetCmd)
  | lock (cmd : LockCmd) (arg : Ptr)
  | owner (cmd : OwnerCmd) (arg : Ptr)
  /-- A command that the switch does not name. -/
  | other (cmd : ℤ) (arg : Option ℤ)
  deriving DecidableEq, Repr

/-- The underlying calls. -/
inductive Sys
  | sleep (seconds : ℕ)
  | usleep (usec : ℕ)
  | nanosleep (req rem : Ptr)
  | socket (domain type protocol : ℤ)
  | connect (sockfd : ℤ) (addr : Ptr) (addrlen : ℕ)
  | accept (s : ℤ) (addr addrlen : Ptr)
  | read (fd : ℤ) (buf : Ptr) (count : ℕ)
  | readv (fd : ℤ) (iov : Ptr) (iovcnt : ℤ)
  | recv (sockfd : ℤ) (buf : Ptr) (len : ℕ) (flags : ℤ)
  | recvfrom (sockfd : ℤ) (buf : Ptr) (len : ℕ) (flags : ℤ) (srcAddr addrlen : Ptr)
  | recvmsg (sockfd : ℤ) (msg : Ptr) (flags : ℤ)
  | write (fd : ℤ) (buf : Ptr) (count : ℕ)
  | writev (fd : ℤ) (iov : Ptr) (iovcnt : ℤ)
  | send (s : ℤ) (msg : Ptr) (len : ℕ) (flags : ℤ)
  | sendto (s : ℤ) (msg : Ptr) (len : ℕ) (flags : ℤ) (toAddr : Ptr) (tolen : ℕ)
  | sendmsg (s : ℤ) (msg : Ptr) (flags : ℤ)
  | close (fd : ℤ)
  | fcntl (fd : ℤ) (cmd : Fcntl)
  | ioctl (d : ℤ) (request : ℕ) (arg : Ptr)
  | getsockopt (sockfd level optname : ℤ) (optval optlen : Ptr)
  | setsockopt (sockfd level optname : ℤ) (optval : Ptr) (optlen : ℕ)
  deriving DecidableEq, Repr

/-- What the functions ask of the scheduler. -/
inductive IomCall
  | addTimer (period : ℕ)
  | addConditionTimer (ms : ℕ) (fd : ℤ) (event : Event)
  | timerCancel
  | addEvent (fd : ℤ) (event : Event)
  | cancelAll (fd : ℤ)
  /-- `Fiber::Yield()`, until the fiber is resumed -/
  | yield
  deriving DecidableEq, Repr

inductive Request
  | sys (c : Sys)
  /-- `fstat(fd, &fd_stat)`, answered with `st_mode`, or `-1` -/
  | fstat (fd : ℤ)
  /-- `getsockopt(fd, SOL_SOCKET, SO_ERROR, &error, &len)`, answered with `error`, or `-1` -/
  | soError (fd : ℤ)
  | iom (r : IomCall)
  deriving DecidableEq, Repr

/-- What a call returns, and `errno` behind it. -/
structure Ret where
  value : ℤ
  errno : ℤ
  deriving DecidableEq, Repr

/-- The outside: its answers, and the memory it shows. -/
structure Outside (σ : Type) where
  answer : σ → Request → Ret × σ
  /-- `*(int*)p` -/
  readInt : σ → Ptr → Option ℤ
  /-- The two fields of a `timeval` or a `timespec` at `p`. -/
  readTime : σ → Ptr → Option (ℤ × ℤ)
  /-- `tinfo->cancelled` -/
  cancelled : σ → ℤ
  /-- `fcntl` returns an `int`. -/
  fcntl_int : ∀ o fd cmd, -2 ^ 31 ≤ (answer o (.sys (.fcntl fd cmd))).1.value ∧
    (answer o (.sys (.fcntl fd cmd))).1.value < 2 ^ 31
  /-- `accept` returns a descriptor that was not open, and so not the one it is called on. -/
  accept_new : ∀ o s addr len, 0 ≤ s → (answer o (.sys (.accept s addr len))).1.value ≠ s

lemma neg_one_ne {s : ℤ} (hs : 0 ≤ s) : -1 ≠ s := by omega

/-- What is local to the process and the calling thread. -/
structure Local where
  fdm : FdManager := {}
  errno : ℤ := 0
  deriving DecidableEq, Repr

/-- The calling thread: whether its hook is on, and whether it runs an `IOManager`. -/
structure Thread where
  hooked : Bool
  iom : Bool
  deriving DecidableEq, Repr

abbrev Hooked (σ : Type) := Prog σ Request Local Fail

abbrev State (σ : Type) := World σ Request Local

/-! ### Numbers -/

def EINTR : ℤ := 4
def EBADF : ℤ := 9
def EAGAIN : ℤ := 11
def ETIMEDOUT : ℤ := 110
def EINPROGRESS : ℤ := 115

def SOL_SOCKET : ℤ := 1
def SO_RCVTIMEO : ℤ := 20
def SO_SNDTIMEO : ℤ := 21
def FIONBIO : ℕ := 0x5421

/-- `S_ISSOCK(mode)` -/
def sIsSock (mode : ℤ) : Bool := BitVec.ofInt 32 mode &&& 0xF000 == 0xC000

/-- The value of an `int` or of a `uint64_t` that another integer is converted to. -/
def asInt (x : ℤ) : ℤ := Int.bmod x (2 ^ 32)
def asU64 (x : ℤ) : ℕ := (x % 2 ^ 64).toNat

section Functions

variable {σ : Type} (O : Outside σ) (t : Thread)

/-! ### Steps -/

/-- A request, with the value returned; `errno` is what it is behind the call. -/
def call (q : Request) : Hooked σ ℤ := do
  let r ← ask O.answer q
  modifyLoc fun l => { l with errno := r.errno }
  return r.value

/-- The underlying call. -/
def sys (c : Sys) : Hooked σ ℤ := call O (.sys c)

/-- A call through `IOManager::GetThis()`. -/
def iomCall (r : IomCall) : Hooked σ ℤ := if t.iom then call O (.iom r) else fail .noManager

def setErrno (e : ℤ) : Hooked σ Unit := modifyLoc fun l => { l with errno := e }

def getErrno : Hooked σ ℤ := do return (← getLoc).errno

/-- `FdMgr::Get()->get(fd)` -/
def fdGet (fd : ℤ) : Hooked σ (Option FdCtx) := do Interact.ofExcept ((← getLoc).fdm.get fd)

/-- Writing through the pointer that `get(fd)` has returned. -/
def fdPut (fd : ℤ) (c : FdCtx) : Hooked σ Unit := modifyLoc fun l => { l with fdm := l.fdm.put fd c }

/-! ### `FdCtx::init` and `FdManager::get` -/

/-- `FdCtx::FdCtx(fd)` -/
def FdCtx.init (fd : ℤ) : Hooked σ FdCtx := do
  let mode ← call O (.fstat fd)
  let isInit := mode != -1
  let isSocket := isInit && sIsSock mode
  if isSocket then
    let flags := BitVec.ofInt 32 (← sys O (.fcntl fd .getfl))
    if !isNonblock flags then
      let _ ← sys O (.fcntl fd (.setfl (flags ||| oNonblock)))
  return { isInit := isInit, isSocket := isSocket, sysNonblock := isSocket, fd := fd }

/-- `FdMgr::Get()->get(fd, true)`, from the section under the write lock on. -/
def fdCreate (fd : ℤ) : Hooked σ Unit := do
  let c ← FdCtx.init O fd
  let m ← Interact.ofExcept ((← getLoc).fdm.store fd c)
  modifyLoc fun l => { l with fdm := m }

/-- `FdMgr::Get()->get(fd, true)` -/
def fdGetCreate (fd : ℤ) : Hooked σ Unit := do
  if fd ≠ -1 then
    match ← fdGet fd with
    | some _ => return
    | none => fdCreate O fd

/-! ### `do_io` -/

/-- What `do_io` does when the call would block: an event and a timeout for it, a wait, and another
try unless the wait has timed out. -/
def waitRetry (fd : ℤ) (event : Event) (timeout : ℕ) (retry : Hooked σ ℤ) : Hooked σ ℤ := do
  let timer := timeout != forever
  if timer then
    let _ ← iomCall O t (.addConditionTimer timeout fd event)
  let rt ← iomCall O t (.addEvent fd event)
  if rt = 0 then
    if timer then
      let _ ← iomCall O t .timerCancel
    return -1
  else
    let _ ← iomCall O t .yield
    if timer then
      let _ ← iomCall O t .timerCancel
    let cancelled ← look O.cancelled
    if cancelled ≠ 0 then
      setErrno cancelled
      return -1
    else retry

/-- The loop of `do_io` from `retry` on. -/
def doIoLoop (fd : ℤ) (fn : Sys) (event : Event) (timeout : ℕ) : ℕ → Hooked σ ℤ
  | 0 => fail .fuel
  | fuel + 1 => do
      let n ← sys O fn
      let e ← getErrno
      if n = -1 ∧ e = EINTR then doIoLoop fd fn event timeout fuel
      else if n = -1 ∧ e = EAGAIN then
        waitRetry O t fd event timeout (doIoLoop fd fn event timeout fuel)
      else return n

def doIo (fuel : ℕ) (fd : ℤ) (fn : Sys) (event : Event) (timeoutSo : Direction) : Hooked σ ℤ := do
  if !t.hooked then sys O fn
  else
    match ← fdGet fd with
    | none => sys O fn
    | some ctx =>
        if ctx.isClosed then
          setErrno EBADF
          return -1
        else if !ctx.isSocket || ctx.userNonblock then sys O fn
        else doIoLoop O t fd fn event (ctx.getTimeout timeoutSo) fuel

/-! ### Sleeping -/

/-- A timer that wakes the calling fiber, and the wait for it. -/
def sleepFor (period : ℕ) : Hooked σ ℤ := do
  let _ ← iomCall O t (.addTimer period)
  let _ ← iomCall O t .yield
  return 0

/-- `seconds * 1000` is of type `unsigned int`. -/
def sleep (seconds : ℕ) : Hooked σ ℤ :=
  if !t.hooked then sys O (.sleep seconds) else sleepFor O t (seconds * 1000 % 2 ^ 32)

def usleep (usec : ℕ) : Hooked σ ℤ :=
  if !t.hooked then sys O (.usleep usec) else sleepFor O t (usec / 1000)

def nanosleep (req rem : Ptr) : Hooked σ ℤ := do
  if !t.hooked then sys O (.nanosleep req rem)
  else
    match ← look (O.readTime · req) with
    | none => fail .unreadable
    | some (sec, nsec) =>
        sleepFor O t (asU64 (asInt (sec * 1000 + (nsec.tdiv 1000).tdiv 1000)))

/-! ### Sockets -/

def socket (domain type protocol : ℤ) : Hooked σ ℤ := do
  if !t.hooked then sys O (.socket domain type protocol)
  else
    let fd ← sys O (.socket domain type protocol)
    if fd = -1 then return fd
    else
      fdGetCreate O fd
      return fd

def connectWithTimeout (fd : ℤ) (addr : Ptr) (addrlen timeout : ℕ) : Hooked σ ℤ := do
  if !t.hooked then sys O (.connect fd addr addrlen)
  else
    match ← fdGet fd with
    | none =>
        setErrno EBADF
        return -1
    | some ctx =>
        if ctx.isClosed then
          setErrno EBADF
          return -1
        else if !ctx.isSocket || ctx.userNonblock then sys O (.connect fd addr addrlen)
        else
          let n ← sys O (.connect fd addr addrlen)
          let e ← getErrno
          if n ≠ -1 ∨ e ≠ EINPROGRESS then return n
          else
            let timer := timeout != forever
            if timer then
              let _ ← iomCall O t (.addConditionTimer timeout fd .write)
            let rt ← iomCall O t (.addEvent fd .write)
            if rt ≠ 0 then
              let _ ← iomCall O t .yield
            if timer then
              let _ ← iomCall O t .timerCancel
            let cancelled ← if rt ≠ 0 then look O.cancelled else pure 0
            if cancelled ≠ 0 then
              setErrno cancelled
              return -1
            else
              let error ← call O (.soError fd)
              if error = -1 then return -1
              else if error = 0 then return 0
              else
                setErrno error
                return -1

/-- `s_connect_timeout` -/
def connectTimeout : ℕ := 5000

def connect (sockfd : ℤ) (addr : Ptr) (addrlen : ℕ) : Hooked σ ℤ :=
  connectWithTimeout O t sockfd addr addrlen connectTimeout

def accept (fuel : ℕ) (s : ℤ) (addr addrlen : Ptr) : Hooked σ ℤ := do
  let fd ← doIo O t fuel s (.accept s addr addrlen) .read .recv
  if 0 ≤ fd then fdGetCreate O fd
  return fd

/-! ### Reading and writing -/

def read (fuel : ℕ) (fd : ℤ) (buf : Ptr) (count : ℕ) : Hooked σ ℤ :=
  doIo O t fuel fd (.read fd buf count) .read .recv

def readv (fuel : ℕ) (fd : ℤ) (iov : Ptr) (iovcnt : ℤ) : Hooked σ ℤ :=
  doIo O t fuel fd (.readv fd iov iovcnt) .read .recv

def recv (fuel : ℕ) (sockfd : ℤ) (buf : Ptr) (len : ℕ) (flags : ℤ) : Hooked σ ℤ :=
  doIo O t fuel sockfd (.recv sockfd buf len flags) .read .recv

def recvfrom (fuel : ℕ) (sockfd : ℤ) (buf : Ptr) (len : ℕ) (flags : ℤ) (srcAddr addrlen : Ptr) :
    Hooked σ ℤ :=
  doIo O t fuel sockfd (.recvfrom sockfd buf len flags srcAddr addrlen) .read .recv

def recvmsg (fuel : ℕ) (sockfd : ℤ) (msg : Ptr) (flags : ℤ) : Hooked σ ℤ :=
  doIo O t fuel sockfd (.recvmsg sockfd msg flags) .read .recv

def write (fuel : ℕ) (fd : ℤ) (buf : Ptr) (count : ℕ) : Hooked σ ℤ :=
  doIo O t fuel fd (.write fd buf count) .write .send

def writev (fuel : ℕ) (fd : ℤ) (iov : Ptr) (iovcnt : ℤ) : Hooked σ ℤ :=
  doIo O t fuel fd (.writev fd iov iovcnt) .write .send

def send (fuel : ℕ) (s : ℤ) (msg : Ptr) (len : ℕ) (flags : ℤ) : Hooked σ ℤ :=
  doIo O t fuel s (.send s msg len flags) .write .send

def sendto (fuel : ℕ) (s : ℤ) (msg : Ptr) (len : ℕ) (flags : ℤ) (toAddr : Ptr) (tolen : ℕ) :
    Hooked σ ℤ :=
  doIo O t fuel s (.sendto s msg len flags toAddr tolen) .write .send

def sendmsg (fuel : ℕ) (s : ℤ) (msg : Ptr) (flags : ℤ) : Hooked σ ℤ :=
  doIo O t fuel s (.sendmsg s msg flags) .write .send

/-! ### Descriptors -/

def close (fd : ℤ) : Hooked σ ℤ := do
  if !t.hooked then sys O (.close fd)
  else
    match ← fdGet fd with
    | none => sys O (.close fd)
    | some _ =>
        if t.iom then
          let _ ← call O (.iom (.cancelAll fd))
        let m ← Interact.ofExcept ((← getLoc).fdm.del fd)
        modifyLoc fun l => { l with fdm := m }
        sys O (.close fd)

/-- `fcntl` does not ask whether the hook is on. -/
def fcntl (fd : ℤ) (cmd : Fcntl) : Hooked σ ℤ := do
  match cmd with
  | .setfl arg =>
      match ← fdGet fd with
      | none => sys O (.fcntl fd (.setfl arg))
      | some ctx =>
          if !ctx.isManaged then sys O (.fcntl fd (.setfl arg))
          else
            fdPut fd (ctx.setUserNonblock (isNonblock arg))
            sys O (.fcntl fd (.setfl (setNonblock arg ctx.sysNonblock)))
  | .getfl =>
      let arg ← sys O (.fcntl fd .getfl)
      match ← fdGet fd with
      | none => return arg
      | some ctx =>
          if !ctx.isManaged then return arg
          else return (setNonblock (BitVec.ofInt 32 arg) ctx.userNonblock).toInt
  -- the argument is not read, and not passed on
  | .other cmd _ => sys O (.fcntl fd (.other cmd none))
  | .int cmd arg => sys O (.fcntl fd (.int cmd arg))
  | .get cmd => sys O (.fcntl fd (.get cmd))
  | .lock cmd arg => sys O (.fcntl fd (.lock cmd arg))
  | .owner cmd arg => sys O (.fcntl fd (.owner cmd arg))

/-- `ioctl` does not ask whether the hook is on, and passes the user's argument on. -/
def ioctl (d : ℤ) (request : ℕ) (arg : Ptr) : Hooked σ ℤ := do
  if request = FIONBIO then
    match ← look (O.readInt · arg) with
    | none => fail .unreadable
    | some v =>
        match ← fdGet d with
        | none => sys O (.ioctl d request arg)
        | some ctx =>
            if ctx.isManaged then fdPut d (ctx.setUserNonblock (v != 0))
            sys O (.ioctl d request arg)
  else sys O (.ioctl d request arg)

def getsockopt (sockfd level optname : ℤ) (optval optlen : Ptr) : Hooked σ ℤ :=
  sys O (.getsockopt sockfd level optname optval optlen)

/-- The timeout that `optname` names. -/
def direction (optname : ℤ) : Option Direction :=
  if optname = SO_RCVTIMEO then some .recv
  else if optname = SO_SNDTIMEO then some .send
  else none

def setsockopt (sockfd level optname : ℤ) (optval : Ptr) (optlen : ℕ) : Hooked σ ℤ := do
  if t.hooked && level == SOL_SOCKET then
    match direction optname with
    | none => pure ()
    | some dir =>
        match ← fdGet sockfd with
        | none => pure ()
        | some ctx =>
            match ← look (O.readTime · optval) with
            | none => fail .unreadable
            | some (sec, usec) =>
                fdPut sockfd (ctx.setTimeout dir (asU64 (sec * 1000 + usec.tdiv 1000)))
  sys O (.setsockopt sockfd level optname optval optlen)

/-! ### All of them -/

/-- The interposed function that is called in place of an underlying one. -/
def hook (fuel : ℕ) : Sys → Hooked σ ℤ
  | .sleep seconds => sleep O t seconds
  | .usleep usec => usleep O t usec
  | .nanosleep req rem => nanosleep O t req rem
  | .socket domain type protocol => socket O t domain type protocol
  | .connect sockfd addr addrlen => connect O t sockfd addr addrlen
  | .accept s addr addrlen => accept O t fuel s addr addrlen
  | .read fd buf count => read O t fuel fd buf count
  | .readv fd iov iovcnt => readv O t fuel fd iov iovcnt
  | .recv sockfd buf len flags => recv O t fuel sockfd buf len flags
  | .recvfrom sockfd buf len flags srcAddr addrlen =>
      recvfrom O t fuel sockfd buf len flags srcAddr addrlen
  | .recvmsg sockfd msg flags => recvmsg O t fuel sockfd msg flags
  | .write fd buf count => write O t fuel fd buf count
  | .writev fd iov iovcnt => writev O t fuel fd iov iovcnt
  | .send s msg len flags => send O t fuel s msg len flags
  | .sendto s msg len flags toAddr tolen => sendto O t fuel s msg len flags toAddr tolen
  | .sendmsg s msg flags => sendmsg O t fuel s msg flags
  | .close fd => close O t fd
  | .fcntl fd cmd => fcntl O fd cmd
  | .ioctl d request arg => ioctl O d request arg
  | .getsockopt sockfd level optname optval optlen =>
      getsockopt O sockfd level optname optval optlen
  | .setsockopt sockfd level optname optval optlen =>
      setsockopt O t sockfd level optname optval optlen

/-- The underlying call, and nothing else. -/
def plain (c : Sys) : Hooked σ ℤ := sys O c

end Functions

/-! ### What a step leaves -/

section Rules

variable {σ : Type} {O : Outside σ} {t : Thread} {w : State σ} {q : Request} {fd : ℤ}

/-- The world behind a request. -/
def answered (O : Outside σ) (q : Request) (w : State σ) : State σ where
  out := (O.answer w.out q).2
  loc := { w.loc with errno := (O.answer w.out q).1.errno }
  trace := w.trace ++ [q]

@[simp] lemma answered_out : (answered O q w).out = (O.answer w.out q).2 := rfl

@[simp] lemma answered_fdm : (answered O q w).loc.fdm = w.loc.fdm := rfl

@[simp] lemma answered_errno : (answered O q w).loc.errno = (O.answer w.out q).1.errno := rfl

@[simp] lemma answered_trace : (answered O q w).trace = w.trace ++ [q] := rfl

@[simp] lemma call_apply : call O q w = .ok ((O.answer w.out q).1.value, answered O q w) := rfl

@[simp] lemma sys_apply {c : Sys} :
    sys O c w = .ok ((O.answer w.out (.sys c)).1.value, answered O (.sys c) w) := rfl

lemma fdGet_apply : (fdGet fd : Hooked σ _) w = (w.loc.fdm.get fd).map fun c => (c, w) := rfl

@[simp] lemma fdGet_bind {β : Type} {k : Option FdCtx × State σ → Except Fail β} :
    ((fdGet fd : Hooked σ _) w).bind k = (w.loc.fdm.get fd).bind fun c => k (c, w) := by
  rw [fdGet_apply]
  cases w.loc.fdm.get fd <;> rfl

@[simp] lemma setErrno_apply {e : ℤ} :
    (setErrno e : Hooked σ _) w = .ok ((), { w with loc := { w.loc with errno := e } }) := rfl

@[simp] lemma getErrno_apply : (getErrno : Hooked σ _) w = .ok (w.loc.errno, w) := rfl

@[simp] lemma fdPut_apply {c : FdCtx} : (fdPut fd c : Hooked σ _) w =
    .ok ((), { w with loc := { w.loc with fdm := w.loc.fdm.put fd c } }) := rfl

lemma asks_call {P : Request → Prop} (h : P q) : Asks P (call O q) :=
  .bind (.ask h) fun _ => .bind (.modifyLoc _) fun _ => .pure _

/-- The requests of `FdCtx::init`. -/
def ByInit (fd : ℤ) (q : Request) : Prop :=
  q = .fstat fd ∨ q = .sys (.fcntl fd .getfl) ∨ ∃ flags, q = .sys (.fcntl fd (.setfl flags))

lemma asks_init : Asks (ByInit fd) (FdCtx.init O fd) := by
  refine .bind (asks_call (.inl rfl)) fun _ => .ite (fun _ => ?_) fun _ => .pure _
  refine .bind (asks_call (.inr (.inl rfl))) fun _ => .ite (fun _ => ?_) fun _ => .pure _
  exact .bind (asks_call (.inr (.inr ⟨_, rfl⟩))) fun _ => .pure _

/-- Whether `fstat` says that the descriptor is a socket. -/
def statSock (O : Outside σ) (fd : ℤ) (w : State σ) : Bool :=
  let mode := (O.answer w.out (.fstat fd)).1.value
  mode != -1 && sIsSock mode

/-- The flags that `FdCtx::init` is told. -/
def initFlags (O : Outside σ) (fd : ℤ) (w : State σ) : BitVec 32 :=
  .ofInt 32 (O.answer (O.answer w.out (.fstat fd)).2 (.sys (.fcntl fd .getfl))).1.value

/-- The context that `FdCtx::init` makes, and the world behind it. -/
def initCtx (O : Outside σ) (fd : ℤ) (w : State σ) : FdCtx where
  isInit := (O.answer w.out (.fstat fd)).1.value != -1
  isSocket := statSock O fd w
  sysNonblock := statSock O fd w
  fd := fd

def initWorld (O : Outside σ) (fd : ℤ) (w : State σ) : State σ :=
  let w₁ := answered O (.fstat fd) w
  if statSock O fd w then
    let w₂ := answered O (.sys (.fcntl fd .getfl)) w₁
    if isNonblock (initFlags O fd w) then w₂
    else answered O (.sys (.fcntl fd (.setfl (initFlags O fd w ||| oNonblock)))) w₂
  else w₁

lemma init_apply : FdCtx.init O fd w = .ok (initCtx O fd w, initWorld O fd w) := by
  simp only [FdCtx.init, initCtx, initWorld, initFlags, statSock, bind_apply, call_apply, ok_bind,
    ite_apply]
  split
  · simp only [sys_apply, ok_bind, answered_out, pure_apply]
    split <;> simp_all
  · simp [*]

lemma initWorld_fdm : (initWorld O fd w).loc.fdm = w.loc.fdm := by
  simp only [initWorld]
  split_ifs <;> rfl

lemma trace_initWorld (O : Outside σ) (fd : ℤ) (w : State σ) :
    ∃ l, (initWorld O fd w).trace = w.trace ++ l ∧ ∀ q ∈ l, ByInit fd q :=
  asks_init w _ _ init_apply

lemma trace_initWorld_ne : (initWorld O fd w).trace ≠ w.trace := by
  simp only [initWorld]
  split_ifs <;> simp

/-- The world behind `get(fd, true)` with the table that the new context is stored in. -/
def madeWorld (O : Outside σ) (fd : ℤ) (w : State σ) (m : FdManager) : State σ :=
  { initWorld O fd w with loc := { (initWorld O fd w).loc with fdm := m } }

lemma fdCreate_apply : fdCreate O fd w =
    (w.loc.fdm.store fd (initCtx O fd w)).map fun m => ((), madeWorld O fd w m) := by
  simp only [fdCreate, bind_apply, init_apply, ok_bind, getLoc_apply, ofExcept_apply, initWorld_fdm]
  cases w.loc.fdm.store fd (initCtx O fd w) <;> rfl

lemma fdGetCreate_of_some {c : FdCtx} (h : w.loc.fdm.get fd = .ok (some c)) :
    fdGetCreate O fd w = .ok ((), w) := by
  simp only [fdGetCreate, ite_apply, bind_apply, fdGet_bind, h, ok_bind, pure_apply, ite_self]

lemma fdGetCreate_of_none (hfd : fd ≠ -1) (h : w.loc.fdm.get fd = .ok none) :
    fdGetCreate O fd w = fdCreate O fd w := by
  simp only [fdGetCreate, ne_eq, hfd, not_false_eq_true, if_true, bind_apply, fdGet_bind, h, ok_bind]

variable {fuel : ℕ} {fn : Sys} {event : Event} {dir : Direction}

lemma doIo_off (h : t.hooked = false) : doIo O t fuel fd fn event dir = sys O fn := by
  simp [doIo, h]

lemma doIo_unmanaged (h : w.loc.fdm.get fd = .ok none) :
    doIo O t fuel fd fn event dir w = sys O fn w := by
  by_cases ht : t.hooked <;> simp [doIo, ht, fdGet_apply, h]

/-! ### The mode of a descriptor, with the context of an open socket and otherwise -/

section Mode

variable {c : FdCtx} {e : Option FdCtx} {flags : BitVec 32} {arg : Ptr} {v : ℤ}

section Passed

variable (h : w.loc.fdm.get fd = .ok e) (he : ∀ c, e = some c → c.isManaged = false)

include h he

lemma fcntl_setfl_passed : fcntl O fd (.setfl flags) w = sys O (.fcntl fd (.setfl flags)) w := by
  cases e with
  | none => simp [fcntl, h]
  | some c => simp [fcntl, h, he c rfl]

lemma fcntl_getfl_passed : fcntl O fd .getfl w = sys O (.fcntl fd .getfl) w := by
  cases e with
  | none => simp [fcntl, h]
  | some c => simp [fcntl, h, he c rfl]

lemma ioctl_passed (hread : O.readInt w.out arg = some v) :
    ioctl O fd FIONBIO arg w = sys O (.ioctl fd FIONBIO arg) w := by
  cases e with
  | none => simp [ioctl, hread, h]
  | some c => simp [ioctl, hread, h, he c rfl]

end Passed

lemma fcntl_setfl_managed (h : w.loc.fdm.get fd = .ok (some c)) (hc : c.isManaged) :
    fcntl O fd (.setfl flags) w = sys O (.fcntl fd (.setfl (setNonblock flags c.sysNonblock)))
      { w with
        loc := { w.loc with fdm := w.loc.fdm.put fd (c.setUserNonblock (isNonblock flags)) } } := by
  simp [fcntl, h, hc]

lemma fcntl_getfl_managed (h : w.loc.fdm.get fd = .ok (some c)) (hc : c.isManaged) :
    fcntl O fd .getfl w = .ok ((setNonblock
      (.ofInt 32 (O.answer w.out (.sys (.fcntl fd .getfl))).1.value) c.userNonblock).toInt,
      answered O (.sys (.fcntl fd .getfl)) w) := by
  simp [fcntl, h, hc]

lemma ioctl_managed (hread : O.readInt w.out arg = some v) (h : w.loc.fdm.get fd = .ok (some c))
    (hc : c.isManaged) : ioctl O fd FIONBIO arg w = sys O (.ioctl fd FIONBIO arg)
      { w with loc := { w.loc with fdm := w.loc.fdm.put fd (c.setUserNonblock (v != 0)) } } := by
  simp [ioctl, hread, h, hc]

end Mode

/-! ### `do_io` -/

section DoIo

variable {c : FdCtx}

lemma doIo_nonblock (ht : t.hooked = true) (h : w.loc.fdm.get fd = .ok (some c))
    (hc : c.isManaged) (huser : c.userNonblock = true) :
    doIo O t fuel fd fn event dir w = sys O fn w := by
  have hclosed : c.isClosed = false := by
    simp only [FdCtx.isManaged, Bool.and_eq_true, Bool.not_eq_true'] at hc
    exact hc.1
  simp [doIo, ht, h, hclosed, huser]

lemma doIo_block (ht : t.hooked = true) (h : w.loc.fdm.get fd = .ok (some c))
    (hc : c.isManaged) (huser : c.userNonblock = false) :
    doIo O t fuel fd fn event dir w = doIoLoop O t fd fn event (c.getTimeout dir) fuel w := by
  simp only [FdCtx.isManaged, Bool.and_eq_true, Bool.not_eq_true'] at hc
  simp [doIo, ht, h, hc.1, hc.2, huser]

lemma doIoLoop_again {timeout : ℕ} (h : (O.answer w.out (.sys fn)).1 = ⟨-1, EAGAIN⟩) :
    doIoLoop O t fd fn event timeout (fuel + 1) w =
      waitRetry O t fd event timeout (doIoLoop O t fd fn event timeout fuel)
        (answered O (.sys fn) w) := by
  simp [doIoLoop, h, EAGAIN, EINTR]

/-- `do_io` whose call is neither interrupted nor would block: it is the call, or the descriptor is
taken for closed. -/
lemma doIo_final {v : ℤ} {w' : State σ}
    (h : (O.answer w.out (.sys fn)).1.value = -1 →
      (O.answer w.out (.sys fn)).1.errno ≠ EINTR ∧ (O.answer w.out (.sys fn)).1.errno ≠ EAGAIN)
    (hio : doIo O t fuel fd fn event dir w = .ok (v, w')) :
    sys O fn w = .ok (v, w') ∨ v = -1 ∧ w' = { w with loc := { w.loc with errno := EBADF } } := by
  have hloop : ∀ {timeout fuel}, doIoLoop O t fd fn event timeout fuel w = .ok (v, w') →
      sys O fn w = .ok (v, w') := by
    intro timeout fuel hl
    cases fuel with
    | zero => cases hl
    | succ fuel =>
        simp only [doIoLoop, bind_apply, sys_apply, ok_bind, getErrno_apply, ite_apply, pure_apply]
          at hl ⊢
        split_ifs at hl with hintr hagain
        · exact absurd hintr.2 (h hintr.1).1
        · exact absurd hagain.2 (h hagain.1).2
        · exact hl
  by_cases ht : t.hooked
  · simp only [doIo, ht, Bool.not_true, Bool.false_eq_true, if_false, bind_apply, fdGet_bind] at hio
    rcases hget : w.loc.fdm.get fd with f | _ | c
    · rw [hget] at hio
      cases hio
    · rw [hget] at hio
      exact .inl hio
    · simp only [hget, ok_bind, ite_apply, bind_apply, setErrno_apply, pure_apply] at hio
      split_ifs at hio
      · cases hio
        exact .inr ⟨rfl, rfl⟩
      · exact .inl hio
      · exact .inl (hloop hio)
  · rw [doIo_off (by simpa using ht)] at hio
    exact .inl hio

end DoIo

/-! ### Closing -/

lemma close_of_none (h : w.loc.fdm.get fd = .ok none) : close O t fd w = sys O (.close fd) w := by
  by_cases ht : t.hooked <;> simp [close, ht, h]

/-- The world in which the calls that wait on a descriptor have been told. -/
def cancelledAll (O : Outside σ) (t : Thread) (fd : ℤ) (w : State σ) : State σ :=
  if t.iom then answered O (.iom (.cancelAll fd)) w else w

lemma close_of_some {c : FdCtx} {m : FdManager} (ht : t.hooked = true)
    (h : w.loc.fdm.get fd = .ok (some c)) (hdel : w.loc.fdm.del fd = .ok m) :
    close O t fd w = sys O (.close fd)
      { cancelledAll O t fd w with loc := { (cancelledAll O t fd w).loc with fdm := m } } := by
  by_cases hiom : t.iom <;> simp [close, ht, h, hiom, cancelledAll, hdel]

/-! ### New descriptors -/

section Socket

variable {domain type protocol r : ℤ}
  (h : (O.answer w.out (.sys (.socket domain type protocol))).1.value = r)

include h

lemma socket_of_fail (ht : t.hooked = true) (hr : r = -1) : socket O t domain type protocol w =
    .ok (r, answered O (.sys (.socket domain type protocol)) w) := by
  simp [socket, ht, h, hr]

/-- A `socket` that returns a descriptor goes on with `get(fd, true)`. -/
lemma socket_of_success (ht : t.hooked = true) (hr : r ≠ -1) : socket O t domain type protocol w =
    (fdGetCreate O r (answered O (.sys (.socket domain type protocol)) w)).map fun x => (r, x.2) := by
  simp only [socket, ht, Bool.not_true, Bool.false_eq_true, if_false, bind_apply, sys_apply, ok_bind,
    h, hr]
  cases fdGetCreate O r (answered O (.sys (.socket domain type protocol)) w) <;> rfl

end Socket

section Accept

variable {s r : ℤ} {addr addrlen : Ptr} {w₁ : State σ}
  (h : doIo O t fuel s (.accept s addr addrlen) .read .recv w = .ok (r, w₁))

include h

lemma accept_of_neg (hr : r < 0) : accept O t fuel s addr addrlen w = .ok (r, w₁) := by
  simp [accept, h, not_le.2 hr]

/-- An `accept` that returns a descriptor goes on with `get(fd, true)`. -/
lemma accept_of_success (hr : 0 ≤ r) : accept O t fuel s addr addrlen w =
    (fdGetCreate O r w₁).map fun x => (r, x.2) := by
  simp only [accept, bind_apply, h, ok_bind, hr, if_true]
  cases fdGetCreate O r w₁ <;> rfl

lemma accept_of_some {c : FdCtx} (hr : 0 ≤ r) (hget : w₁.loc.fdm.get r = .ok (some c)) :
    accept O t fuel s addr addrlen w = .ok (r, w₁) := by
  rw [accept_of_success h hr, fdGetCreate_of_some hget]
  rfl

lemma accept_of_none (hr : 0 ≤ r) (hget : w₁.loc.fdm.get r = .ok none) :
    accept O t fuel s addr addrlen w =
      (w₁.loc.fdm.store r (initCtx O r w₁)).map fun m => (r, madeWorld O r w₁ m) := by
  rw [accept_of_success h hr, fdGetCreate_of_none (by omega) hget, fdCreate_apply]
  cases w₁.loc.fdm.store r (initCtx O r w₁) <;> rfl

end Accept

end Rules

end Eva01.Hook
