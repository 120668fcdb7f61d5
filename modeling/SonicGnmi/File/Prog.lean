import SonicGnmi.File.Messages

/-!
# Handlers as programs of calls

A handler of the file service is modelled as a `Prog`: a tree whose nodes are the
filesystem and stream calls it makes (`Call`) and whose branches are the replies it
may get. The same program is then run in three ways: alone against the filesystem
with any outcome for each call (`Prog.exec`), interleaved with other handlers on a
shared filesystem (`File.Concurrent`), and against a filesystem with symbolic and hard links
(`File.Links`).

* `exec_bind` — running `p >>= f` runs `p`, then `f` on the rest of the faults;
* `AllCalls` — a property of every call a program can make, whatever the replies;
  `mem_exec_allCalls` turns it into a property of every call of every run;
* `ErrorsAs` — what a program's errors say: the one it returns on a failed call, and the
  others; `exec_errorsAs` reads the error of a run off the call that failed.
-/

namespace SonicGnmi.File

/-- What `os.IsNotExist` and `os.IsPermission` tell of an error, and whether it is a gRPC
status error, for which `status.FromError` finds its status. -/
inductive ErrKind where
  | notExist
  | permission
  | status (st : Status)
  | other
  deriving DecidableEq, Repr

/-- An error a call returns: its kind and its text. -/
structure OsError where
  kind : ErrKind
  text : String
  deriving DecidableEq, Repr

/-- `status.Error(code, msg)` as the error a call returns: neither `os.IsNotExist` nor
`os.IsPermission` holds of it, and `Error()` prints its code and message. -/
def Status.toError (st : Status) : OsError :=
  ⟨.status st, "rpc error: code = " ++ st.code.name ++ " desc = " ++ st.msg⟩

/-- The status a client gets when a handler returns the error `e` as it is: its own status
when `e` is a gRPC status error, and `Unknown` with its text otherwise, which is how gRPC
sends a plain error such as `io.EOF`. -/
def OsError.status (e : OsError) : Status :=
  match e.kind with
  | .status st => st
  | _ => ⟨.unknown, e.text⟩

/-- The outcome the environment gives one call: success, or failure with an error
(a failed write has written its first `written` bytes). -/
inductive Fault where
  | ok
  | fail (e : OsError) (written : Nat)
  deriving DecidableEq, Repr

/-- The filesystem, network and stream calls of the handlers. -/
inductive Call where
  /-- `os.OpenFile(path, os.O_CREATE|os.O_WRONLY|os.O_TRUNC, 0644)` -/
  | openFile (path : List Char)
  /-- `f.Write(data)` on the descriptor opened on `path` -/
  | write (path : List Char) (data : Bytes)
  /-- `f.Close()` on the descriptor opened on `path` -/
  | close (path : List Char)
  /-- `os.Chmod(path, os.FileMode(mode))` -/
  | chmod (path : List Char) (mode : UInt32)
  /-- `os.Rename(src, dst)` -/
  | rename (src dst : List Char)
  /-- `os.Stat(path)` -/
  | stat (path : List Char)
  /-- `os.Remove(path)` -/
  | remove (path : List Char)
  /-- read the whole file at `path` -/
  | readFile (path : List Char)
  /-- `stream.SendAndClose(&PutResponse{})` -/
  | sendAndClose
  /-- Modelled from the spec: `download.DownloadHTTP(ctx, url, path, maxFileSize)` when
  the server answers with `body`, which creates or truncates `path` and writes the body
  to it -/
  | download (url path : List Char) (body : Bytes)
  /-- Modelled from the spec: `download.DownloadHTTPStreaming(ctx, url, maxFileSize)`,
  which opens the source stream -/
  | openSource (url : List Char)
  /-- Modelled from the spec: `dpuproxy.GetDPUConnection(ctx, dpuIndex)` -/
  | getConn (dpuIndex : List Char)
  /-- `fileClient.Put(ctx)`, which opens the upload stream to the DPU -/
  | openPut
  /-- `putClient.Send(req)` -/
  | send (req : PutRequest)
  /-- The `select` on `ctx.Done()` at the top of the proxy's loop: an error once the
  deadline has passed -/
  | deadline
  /-- `putClient.CloseAndRecv()` -/
  | closeAndRecv
  deriving DecidableEq, Repr

/-- The paths a call names. -/
def Call.paths : Call → List (List Char)
  | .openFile p | .write p _ | .close p | .chmod p _ | .stat p | .remove p
  | .readFile p | .download _ p _ => [p]
  | .rename src dst => [src, dst]
  | .sendAndClose | .openSource _ | .getConn _ | .openPut | .send _ | .deadline
  | .closeAndRecv => []

/-- A call's reply: an error, or success with the bytes read (none for most calls). -/
abbrev Reply := Except OsError Bytes

/-- A program that makes calls and continues with their replies. -/
inductive Prog (α : Type) where
  | ret (a : α)
  | call (c : Call) (k : Reply → Prog α)

namespace Prog

variable {α β σ : Type}

/-- Sequencing: run `p`, then `f` on its result. -/
def bind : Prog α → (α → Prog β) → Prog β
  | .ret a, f => f a
  | .call c k, f => .call c fun r => (k r).bind f

instance : Monad Prog where
  pure := .ret
  bind := bind

/-- A call a run made and the reply it got. -/
structure Event where
  call : Call
  reply : Reply

/-- What a run returns: the program's result, the final state, and the calls made
with their replies, in order. -/
structure Run (α σ : Type) where
  result : α
  state : σ
  events : List Event

/-- A run with one more call in front. -/
def Run.cons (e : Event) (r : Run α σ) : Run α σ := { r with events := e :: r.events }

@[simp] theorem Run.cons_result (e : Event) (r : Run α σ) : (r.cons e).result = r.result := rfl

@[simp] theorem Run.cons_state (e : Event) (r : Run α σ) : (r.cons e).state = r.state := rfl

@[simp] theorem Run.cons_events (e : Event) (r : Run α σ) :
    (r.cons e).events = e :: r.events := rfl

/-- A run continued by `g`, which starts from its result and state. -/
def Run.andThen (r : Run α σ) (g : Run α σ → Run β σ) : Run β σ :=
  { g r with events := r.events ++ (g r).events }

section Exec

variable (perform : Call → Fault → σ → Reply × σ)

/-- Run a program against `perform`, a semantics of the calls on states `σ`. The
`i`-th call gets the `i`-th fault, and succeeds once the list runs out. -/
def exec : Prog α → List Fault → σ → Run α σ
  | .ret a, _, s => ⟨a, s, []⟩
  | .call c k, fs, s =>
    let r := perform c (fs.headD .ok) s
    ((k r.1).exec fs.tail r.2).cons ⟨c, r.1⟩

@[simp] theorem exec_ret (a : α) (fs : List Fault) (s : σ) :
    (ret a).exec perform fs s = ⟨a, s, []⟩ := rfl

@[simp] theorem exec_call (c : Call) (k : Reply → Prog α) (fs : List Fault) (s : σ) :
    (call c k).exec perform fs s =
      ((k (perform c (fs.headD .ok) s).1).exec perform fs.tail
        (perform c (fs.headD .ok) s).2).cons ⟨c, (perform c (fs.headD .ok) s).1⟩ := rfl

/-- Running `p.bind f` runs `p`, then `f` on its result with the faults `p` left. -/
theorem exec_bind (p : Prog α) (f : α → Prog β) (fs : List Fault) (s : σ) :
    (p.bind f).exec perform fs s = (p.exec perform fs s).andThen
      fun r => (f r.result).exec perform (fs.drop r.events.length) r.state := by
  induction p generalizing fs s with
  | ret a => rfl
  | call c k ih =>
    simp only [bind, exec_call, ih, Run.cons, Run.andThen, List.length_cons,
      ← List.drop_tail, List.cons_append]

@[simp] theorem result_exec_bind (p : Prog α) (f : α → Prog β) (fs : List Fault) (s : σ) :
    ((p.bind f).exec perform fs s).result = ((f (p.exec perform fs s).result).exec perform
      (fs.drop (p.exec perform fs s).events.length) (p.exec perform fs s).state).result := by
  rw [exec_bind]; rfl

@[simp] theorem state_exec_bind (p : Prog α) (f : α → Prog β) (fs : List Fault) (s : σ) :
    ((p.bind f).exec perform fs s).state = ((f (p.exec perform fs s).result).exec perform
      (fs.drop (p.exec perform fs s).events.length) (p.exec perform fs s).state).state := by
  rw [exec_bind]; rfl

@[simp] theorem events_exec_bind (p : Prog α) (f : α → Prog β) (fs : List Fault) (s : σ) :
    ((p.bind f).exec perform fs s).events = (p.exec perform fs s).events ++
      ((f (p.exec perform fs s).result).exec perform
        (fs.drop (p.exec perform fs s).events.length) (p.exec perform fs s).state).events := by
  rw [exec_bind]; rfl

end Exec

/-! ## Properties of every call -/

/-- Every call the program can make satisfies `P`, whatever the replies. -/
def AllCalls (P : Call → Prop) : Prog α → Prop
  | .ret _ => True
  | .call c k => P c ∧ ∀ r, (k r).AllCalls P

theorem AllCalls.mono {P Q : Call → Prop} (hPQ : ∀ c, P c → Q c) {p : Prog α}
    (hp : p.AllCalls P) : p.AllCalls Q := by
  induction p with
  | ret a => trivial
  | call c k ih => exact ⟨hPQ c hp.1, fun r => ih r (hp.2 r)⟩

/-- A call satisfying `P`, whose continuation satisfies it on an error and on a success. -/
theorem allCalls_call {P : Call → Prop} {c : Call} {k : Reply → Prog α} (hc : P c)
    (herr : ∀ e, (k (.error e)).AllCalls P) (hok : ∀ b, (k (.ok b)).AllCalls P) :
    (call c k).AllCalls P :=
  ⟨hc, fun r => by rcases r with e | b; exacts [herr e, hok b]⟩

theorem allCalls_bind {P : Call → Prop} {p : Prog α} {f : α → Prog β}
    (hp : p.AllCalls P) (hf : ∀ a, (f a).AllCalls P) : (p.bind f).AllCalls P := by
  induction p with
  | ret a => exact hf a
  | call c k ih => exact ⟨hp.1, fun r => ih r (hp.2 r)⟩

/-- Every call of every run of a program satisfies what all its calls satisfy. -/
theorem mem_exec_allCalls {P : Call → Prop} (perform : Call → Fault → σ → Reply × σ)
    {p : Prog α} (hp : p.AllCalls P) (fs : List Fault) (s : σ) :
    ∀ e ∈ (p.exec perform fs s).events, P e.call := by
  induction p generalizing fs s with
  | ret a => simp
  | call c k ih =>
    intro e he
    rcases List.mem_cons.mp he with rfl | he
    · exact hp.1
    · exact ih _ (hp.2 _) _ _ e he

/-- An invariant of the state that every call of the program keeps, as long as the
call's event is good, holds at the end of every run all of whose events are good. -/
theorem exec_inv {P : Call → Prop} (Inv : σ → Prop) (Good : Event → Prop)
    (perform : Call → Fault → σ → Reply × σ) {p : Prog α} (hp : p.AllCalls P)
    (hstep : ∀ c f s, P c → Inv s → Good ⟨c, (perform c f s).1⟩ → Inv (perform c f s).2)
    (fs : List Fault) {s : σ} (hs : Inv s)
    (hgood : ∀ e ∈ (p.exec perform fs s).events, Good e) :
    Inv (p.exec perform fs s).state := by
  induction p generalizing fs s with
  | ret a => exact hs
  | call c k ih =>
    have hg := hgood _ (List.mem_cons_self _ _)
    exact ih _ (hp.2 _) _ (hstep c _ s hp.1 hs hg)
      (fun e he => hgood e (List.mem_cons_of_mem _ he))

/-- A failed call makes the program return an error at once. -/
def FailsOnError {ε β : Type} : Prog (Except ε β) → Prop
  | .ret _ => True
  | .call _ k => (∀ e, ∃ st, k (.error e) = .ret (.error st)) ∧ ∀ r, (k r).FailsOnError

section FailsOnError

variable {ε β : Type} (perform : Call → Fault → σ → Reply × σ)

/-- In a run of a program that fails on error, every call before another one
succeeded. -/
theorem exec_failsOnError {p : Prog (Except ε β)} (hp : p.FailsOnError) (fs : List Fault) (s : σ)
    {pre : List Event} {e : Event} {post : List Event}
    (he : (p.exec perform fs s).events = pre ++ e :: post) : ∀ e' ∈ pre, e'.reply.isOk := by
  induction p generalizing fs s pre with
  | ret a => simp at he
  | call c k ih =>
    rcases pre with _ | ⟨x, pre⟩
    · simp
    simp only [exec_call, Run.cons_events, List.cons_append, List.cons.injEq] at he
    obtain ⟨rfl, he⟩ := he
    intro e' he'
    rcases List.mem_cons.mp he' with rfl | he'
    · rcases hr : (perform c (fs.headD .ok) s).1 with err | b
      · obtain ⟨st, hst⟩ := hp.1 err
        simp only [hr, hst, exec_ret] at he
        simp at he
      · simp [hr, Except.isOk, Except.toBool]
    · exact ih _ (hp.2 _) _ _ he e' he'

/-- A successful run of a program that fails on error made only successful calls. -/
theorem exec_failsOnError_ok {p : Prog (Except ε β)} (hp : p.FailsOnError) (fs : List Fault)
    (s : σ) {b : β} (hok : (p.exec perform fs s).result = .ok b) :
    ∀ e ∈ (p.exec perform fs s).events, e.reply.isOk := by
  induction p generalizing fs s with
  | ret a => simp
  | call c k ih =>
    simp only [exec_call, Run.cons_events, Run.cons_result, List.mem_cons] at hok ⊢
    rcases hr : (perform c (fs.headD .ok) s).1 with err | b'
    · obtain ⟨st, hst⟩ := hp.1 err
      simp only [hr, hst, exec_ret] at hok
      simp at hok
    · simp only [hr] at hok ⊢
      rintro e (rfl | he)
      · simp [Except.isOk, Except.toBool]
      · exact ih _ (hp.2 _) _ _ hok e he

end FailsOnError

/-- A program whose failed calls make it return at once an error that `Q` relates to the
call and its error, and whose every other error satisfies `R`. -/
def ErrorsAs {ε β : Type} (Q : Call → OsError → ε → Prop) (R : ε → Prop) :
    Prog (Except ε β) → Prop
  | .ret (.error st) => R st
  | .ret (.ok _) => True
  | .call c k => (∀ e, ∃ st, k (.error e) = .ret (.error st) ∧ Q c e st) ∧
      ∀ b, (k (.ok b)).ErrorsAs Q R

section ErrorsAs

variable {ε β : Type} {Q : Call → OsError → ε → Prop} {R : ε → Prop}
  (perform : Call → Fault → σ → Reply × σ)

theorem ErrorsAs.failsOnError {p : Prog (Except ε β)} (hp : p.ErrorsAs Q R) : p.FailsOnError := by
  induction p with
  | ret a => trivial
  | call c k ih =>
    refine ⟨fun e => (hp.1 e).imp fun _ h => h.1, fun r => ?_⟩
    rcases r with e | b
    · obtain ⟨st, hst, -⟩ := hp.1 e
      rw [hst]
      trivial
    · exact ih _ (hp.2 b)

/-- A run in which a call failed returns the error `Q` gives for that call. -/
theorem exec_errorsAs_of_mem {p : Prog (Except ε β)} (hp : p.ErrorsAs Q R) (fs : List Fault)
    (s : σ) {c : Call} {e : OsError} (he : ⟨c, .error e⟩ ∈ (p.exec perform fs s).events) :
    ∃ st, (p.exec perform fs s).result = .error st ∧ Q c e st := by
  induction p generalizing fs s with
  | ret a => simp at he
  | call c' k ih =>
    simp only [exec_call, Run.cons_events, Run.cons_result, List.mem_cons] at he ⊢
    rcases hr : (perform c' (fs.headD .ok) s).1 with e' | b
    · obtain ⟨st, hst, hq⟩ := hp.1 e'
      simp only [hr, hst, exec_ret, List.not_mem_nil, or_false, Event.mk.injEq,
        Except.error.injEq] at he ⊢
      obtain ⟨rfl, rfl⟩ := he
      exact ⟨st, rfl, hq⟩
    · simp only [hr] at he ⊢
      rcases he with he | he
      · cases he
      · exact ih _ (hp.2 b) _ _ he

/-- A run all of whose calls succeeded returns an error only if `R` holds of it. -/
theorem exec_errorsAs_ok {p : Prog (Except ε β)} (hp : p.ErrorsAs Q R) (fs : List Fault) (s : σ)
    (hok : ∀ ev ∈ (p.exec perform fs s).events, ev.reply.isOk) {st : ε}
    (h : (p.exec perform fs s).result = .error st) : R st := by
  induction p generalizing fs s with
  | ret a =>
    rcases a with st' | b
    · cases h
      exact hp
    · cases h
  | call c k ih =>
    simp only [exec_call, Run.cons_events, Run.cons_result, List.mem_cons,
      forall_eq_or_imp] at hok h
    rcases hr : (perform c (fs.headD .ok) s).1 with e | b
    · simp only [hr] at hok
      simp [Except.isOk, Except.toBool] at hok
    · simp only [hr] at hok h
      exact ih _ (hp.2 b) _ _ hok.2 h

/-- The error of a run: the one `Q` gives for the call that failed, or, when every call
succeeded, one `R` holds of. -/
theorem exec_errorsAs {p : Prog (Except ε β)} (hp : p.ErrorsAs Q R) (fs : List Fault) (s : σ)
    {st : ε} (h : (p.exec perform fs s).result = .error st) :
    (∃ c e, ⟨c, .error e⟩ ∈ (p.exec perform fs s).events ∧ Q c e st) ∨
      ((∀ ev ∈ (p.exec perform fs s).events, ev.reply.isOk) ∧ R st) := by
  by_cases hex : ∃ c e, (⟨c, .error e⟩ : Event) ∈ (p.exec perform fs s).events
  · obtain ⟨c, e, he⟩ := hex
    obtain ⟨st', h', hq⟩ := exec_errorsAs_of_mem perform hp fs s he
    rw [h, Except.error.injEq] at h'
    exact .inl ⟨c, e, he, h' ▸ hq⟩
  · have hok : ∀ ev ∈ (p.exec perform fs s).events, ev.reply.isOk := by
      rintro ⟨c, e | b⟩ hev
      · exact absurd ⟨c, e, hev⟩ hex
      · rfl
    exact .inr ⟨hok, exec_errorsAs_ok perform hp fs s hok h⟩

end ErrorsAs

end Prog

end SonicGnmi.File
