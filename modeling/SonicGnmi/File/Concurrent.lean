import SonicGnmi.File.Accept
import SonicGnmi.Md5

/-!
# Concurrent `HandlePut` runs on one filesystem

Requests run as threads on a shared filesystem. A schedule lists the turns: on each,
one request makes its next call, with the outcome the turn gives it (`World.run`). The
trace records each call with its request, its reply and the filesystem right after it.

Every `HandlePut` on a destination `D` writes the same temp path `D.tmp`. A second run
on `D` that opens that path with `O_TRUNC` between the first run's writes and its rename
empties the file, and the first run then renames the emptied file onto `D` and returns
success (`concurrent_put_commits_truncated`). When no other request names the temp
path, a request sees that path as it would alone:

* `run_tracks` — along any schedule, a request whose calls read only `T`, among
  requests that never name `T`, is where its own sequential run is, and holds at `T`
  what that run holds;
* `handlePut_rename_verified` — in a sequential run that goes on to succeed, the temp
  file holds the verified bytes when the rename moves it;
* `concurrent_put_commits_verified` — a run that returns success, while no other run
  has its destination or its temp path as destination, moved exactly the bytes it
  verified onto its destination.
-/

namespace SonicGnmi.File

open SonicGnmi.Path

namespace Prog

variable {α σ : Type} (perform : Call → Fault → σ → Reply × σ)

/-- The first calls of a run: the program left after the calls that get the outcomes
`fs`, the state, and the calls made. A program that has returned makes no more. -/
def runFor : List Fault → Prog α → σ → Prog α × σ × List Event
  | _, .ret a, s => (.ret a, s, [])
  | [], .call c k, s => (.call c k, s, [])
  | f :: fs, .call c k, s =>
    let x := runFor fs (k (perform c f s).1) (perform c f s).2
    (x.1, x.2.1, ⟨c, (perform c f s).1⟩ :: x.2.2)

@[simp] theorem runFor_ret (fs : List Fault) (a : α) (s : σ) :
    runFor perform fs (.ret a) s = (.ret a, s, []) := by
  cases fs <;> rfl

@[simp] theorem runFor_nil (p : Prog α) (s : σ) : runFor perform [] p s = (p, s, []) := by
  cases p <;> rfl

@[simp] theorem runFor_cons_call (f : Fault) (fs : List Fault) (c : Call) (k : Reply → Prog α)
    (s : σ) :
    runFor perform (f :: fs) (.call c k) s =
      ((runFor perform fs (k (perform c f s).1) (perform c f s).2).1,
        (runFor perform fs (k (perform c f s).1) (perform c f s).2).2.1,
        ⟨c, (perform c f s).1⟩ :: (runFor perform fs (k (perform c f s).1) (perform c f s).2).2.2) :=
  rfl

/-- The outcomes `fs₁ ++ fs₂` run `fs₁`, then `fs₂` from where `fs₁` stopped. -/
theorem runFor_append (fs₁ fs₂ : List Fault) (p : Prog α) (s : σ) :
    runFor perform (fs₁ ++ fs₂) p s =
      ((runFor perform fs₂ (runFor perform fs₁ p s).1 (runFor perform fs₁ p s).2.1).1,
        (runFor perform fs₂ (runFor perform fs₁ p s).1 (runFor perform fs₁ p s).2.1).2.1,
        (runFor perform fs₁ p s).2.2 ++
          (runFor perform fs₂ (runFor perform fs₁ p s).1 (runFor perform fs₁ p s).2.1).2.2) := by
  induction fs₁ generalizing p s with
  | nil => simp
  | cons f fs₁ ih =>
    cases p with
    | ret a => simp
    | call c k => simp [ih]

/-- A prefix of a run at whose end the program has returned is the whole run. -/
theorem exec_of_runFor_ret {fs : List Fault} {p : Prog α} {s : σ} {a : α}
    (h : (runFor perform fs p s).1 = .ret a) :
    p.exec perform fs s = ⟨a, (runFor perform fs p s).2.1, (runFor perform fs p s).2.2⟩ := by
  induction p generalizing fs s with
  | ret b =>
    simp only [runFor_ret, ret.injEq] at h
    simp [h]
  | call c k ih =>
    cases fs with
    | nil => simp at h
    | cons f fs =>
      simp only [runFor_cons_call] at h ⊢
      rw [exec_call, List.headD_cons, List.tail_cons, ih _ h]
      rfl

theorem allCalls_runFor {P : Call → Prop} {p : Prog α} (hp : p.AllCalls P) (fs : List Fault)
    (s : σ) : (runFor perform fs p s).1.AllCalls P := by
  induction p generalizing fs s with
  | ret a => simp [AllCalls]
  | call c k ih =>
    cases fs with
    | nil => exact hp
    | cons f fs => exact ih _ (hp.2 _) _ _

/-- An invariant of the state that every call of the program keeps holds after every
prefix of a run. -/
theorem runFor_inv {P : Call → Prop} (Inv : σ → Prop) {p : Prog α} (hp : p.AllCalls P)
    (hstep : ∀ c f s, P c → Inv s → Inv (perform c f s).2) (fs : List Fault) {s : σ}
    (hs : Inv s) : Inv (runFor perform fs p s).2.1 := by
  induction p generalizing fs s with
  | ret a => simpa using hs
  | call c k ih =>
    cases fs with
    | nil => exact hs
    | cons f fs => exact ih _ (hp.2 _) _ (hstep c f s hp.1 hs)

end Prog

/-! ## Interleaving -/

/-- A turn of the schedule: request `thread` makes its next call, with outcome `fault`. -/
structure Turn where
  thread : Nat
  fault : Fault

/-- An entry of the trace: the request, its call with the reply, and the filesystem right
after the call. -/
structure Step where
  thread : Nat
  event : Prog.Event
  fs : Fs

/-- Concurrent requests on one filesystem: what each still has to run, and the
filesystem. -/
structure World (α : Type) where
  threads : List (Prog α)
  fs : Fs

namespace World

variable {α : Type}

/-- One turn: the request makes its next call, unless it has returned. -/
def step (w : World α) (t : Turn) : World α × List Step :=
  match w.threads[t.thread]? with
  | some (.call c k) =>
    (⟨w.threads.set t.thread (k (Fs.perform c t.fault w.fs).1), (Fs.perform c t.fault w.fs).2⟩,
      [⟨t.thread, ⟨c, (Fs.perform c t.fault w.fs).1⟩, (Fs.perform c t.fault w.fs).2⟩])
  | _ => (w, [])

/-- The requests run under a schedule: the world at its end, and the trace. -/
def run (w : World α) : List Turn → World α × List Step
  | [] => (w, [])
  | t :: sched => (((w.step t).1.run sched).1, (w.step t).2 ++ ((w.step t).1.run sched).2)

theorem mem_step {w : World α} {t : Turn} {e : Step} (he : e ∈ (w.step t).2) :
    ∃ c k, w.threads[t.thread]? = some (.call c k) ∧
      e = ⟨t.thread, ⟨c, (Fs.perform c t.fault w.fs).1⟩, (Fs.perform c t.fault w.fs).2⟩ := by
  unfold step at he
  split at he
  · exact ⟨_, _, ‹_›, List.mem_singleton.mp he⟩
  · simp at he

/-- A request that has returned stays returned. -/
theorem run_ret {w : World α} {a : Nat} {x : α} (h : w.threads[a]? = some (.ret x))
    (sched : List Turn) : (w.run sched).1.threads[a]? = some (.ret x) := by
  induction sched generalizing w with
  | nil => exact h
  | cons t sched ih =>
    apply ih
    unfold step
    split
    · rename_i c k hget
      have hne : t.thread ≠ a := by rintro rfl; rw [h] at hget; cases hget
      rw [List.getElem?_set_ne hne]
      exact h
    · exact h

/-- An entry of the trace was made by one turn, from the world the turns before it
reached. -/
theorem mem_run {w : World α} {sched : List Turn} {e : Step} (he : e ∈ (w.run sched).2) :
    ∃ pre t post, sched = pre ++ t :: post ∧ e ∈ ((w.run pre).1.step t).2 := by
  induction sched generalizing w with
  | nil => simp [run] at he
  | cons t sched ih =>
    rcases List.mem_append.mp he with he | he
    · exact ⟨[], t, sched, rfl, he⟩
    · obtain ⟨pre, t', post, rfl, he'⟩ := ih he
      exact ⟨t :: pre, t', post, rfl, he'⟩

end World

/-- The outcomes the schedule gives request `a`. -/
def faultsOf (a : Nat) (sched : List Turn) : List Fault :=
  (sched.filter fun t => t.thread = a).map Turn.fault

/-- The calls request `a` made in a trace. -/
def eventsOf (a : Nat) (trace : List Step) : List Prog.Event :=
  (trace.filter fun e => e.thread = a).map Step.event

theorem faultsOf_cons (a : Nat) (t : Turn) (sched : List Turn) :
    faultsOf a (t :: sched) = if t.thread = a then t.fault :: faultsOf a sched else faultsOf a sched := by
  by_cases h : t.thread = a <;> simp [faultsOf, h]

@[simp] theorem faultsOf_append (a : Nat) (s₁ s₂ : List Turn) :
    faultsOf a (s₁ ++ s₂) = faultsOf a s₁ ++ faultsOf a s₂ := by
  simp [faultsOf]

@[simp] theorem eventsOf_append (a : Nat) (l₁ l₂ : List Step) :
    eventsOf a (l₁ ++ l₂) = eventsOf a l₁ ++ eventsOf a l₂ := by
  simp [eventsOf]

/-- A call whose reply, and whose effect at `T`, depend on the filesystem only at `T`. -/
def ReadsOnly (T : List Char) (c : Call) : Prop :=
  ∀ f (t₁ t₂ : Fs), t₁ T = t₂ T →
    (Fs.perform c f t₁).1 = (Fs.perform c f t₂).1 ∧ (Fs.perform c f t₁).2 T = (Fs.perform c f t₂).2 T

/-- Request `a` of `w` is at `p`, and its sequential view `s` agrees with the world at
`T`: its calls read only `T`, and no other request's calls name `T`. -/
structure Tracks {α : Type} (a : Nat) (T : List Char) (w : World α) (p : Prog α) (s : Fs) :
    Prop where
  prog : w.threads[a]? = some p
  view : s T = w.fs T
  own : p.AllCalls (ReadsOnly T)
  others : ∀ j q, j ≠ a → w.threads[j]? = some q → q.AllCalls fun c => T ∉ c.paths

section Tracks

variable {α : Type} {a : Nat} {T : List Char}

/-- One turn keeps the request where its sequential run is: its own turn is a step of
that run, another's turn leaves `T` and the request alone. -/
theorem step_tracks {w : World α} {p : Prog α} {s : Fs} (h : Tracks a T w p s) (t : Turn) :
    Tracks a T (w.step t).1 (Prog.runFor Fs.perform (faultsOf a [t]) p s).1
        (Prog.runFor Fs.perform (faultsOf a [t]) p s).2.1 ∧
      (Prog.runFor Fs.perform (faultsOf a [t]) p s).2.2 = eventsOf a (w.step t).2 := by
  obtain ⟨i, f⟩ := t
  have hlen : a < w.threads.length := (List.getElem?_eq_some_iff.mp h.prog).1
  by_cases hi : i = a
  · -- the request's own turn
    subst hi
    cases p with
    | ret x => simp [faultsOf, eventsOf, World.step, h.prog, h]
    | call c k =>
      obtain ⟨hr, hT⟩ := h.own.1 f s w.fs h.view
      simp only [faultsOf, eventsOf, World.step, h.prog, List.filter_cons_of_pos,
        List.filter_nil, List.map_cons, List.map_nil, decide_True, Prog.runFor_cons_call,
        Prog.runFor_nil, hr]
      refine ⟨⟨List.getElem?_set_self hlen, hT, h.own.2 _, fun j q hj hq => ?_⟩, trivial⟩
      rw [List.getElem?_set_ne (Ne.symm hj)] at hq
      exact h.others j q hj hq
  · -- another request's turn
    have hf : faultsOf a [⟨i, f⟩] = [] := by simp [faultsOf, hi]
    rw [hf, Prog.runFor_nil]
    unfold World.step
    split
    · rename_i c k hget
      have hc := h.others i _ hi hget
      refine ⟨⟨by rw [List.getElem?_set_ne hi]; exact h.prog, ?_, h.own, fun j q hj hq => ?_⟩,
        by simp [eventsOf, hi]⟩
      · show s T = (Fs.perform c f w.fs).2 T
        rw [h.view, Fs.perform_frame c f w.fs hc.1]
      · by_cases hji : i = j
        · subst hji
          rw [List.getElem?_set_self (List.getElem?_eq_some_iff.mp hget).1] at hq
          cases hq
          exact hc.2 _
        · rw [List.getElem?_set_ne hji] at hq
          exact h.others j q hj hq
    · exact ⟨h, rfl⟩

/-- **Projection.** Along any schedule, a request whose calls read only `T`, among
requests that never name `T`, is where its sequential run on its own outcomes is, made
the same calls with the same replies, and holds at `T` what that run holds. -/
theorem run_tracks (sched : List Turn) : ∀ {w : World α} {p : Prog α} {s : Fs},
    Tracks a T w p s →
    Tracks a T (w.run sched).1 (Prog.runFor Fs.perform (faultsOf a sched) p s).1
        (Prog.runFor Fs.perform (faultsOf a sched) p s).2.1 ∧
      (Prog.runFor Fs.perform (faultsOf a sched) p s).2.2 = eventsOf a (w.run sched).2 := by
  induction sched with
  | nil => intro w p s h; simpa [World.run, faultsOf, eventsOf] using h
  | cons t sched ih =>
    intro w p s h
    obtain ⟨h1, he1⟩ := step_tracks h t
    obtain ⟨h2, he2⟩ := ih h1
    have hcons : faultsOf a (t :: sched) = faultsOf a [t] ++ faultsOf a sched := by
      rw [← faultsOf_append]; rfl
    rw [hcons, Prog.runFor_append]
    exact ⟨h2, by simp only [World.run, eventsOf_append, he1, he2]⟩

end Tracks

/-! ## `HandlePut` in a concurrent run -/

theorem putCall_readsOnly {T D : List Char} {c : Call} (hc : PutCall T D c) : ReadsOnly T c := by
  intro f t₁ t₂ h
  rcases hc with _ | ⟨_ | _ | _ | _ | _⟩ | _ | _ <;> cases f <;>
    simp only [Fs.perform, Fs.append, Fs.truncate, Fault.written, h] <;> cases t₂ T <;> simp_all

/-- A `HandlePut` call names neither `T` nor `D` unless it names its own paths. -/
theorem putCall_avoids {T' D' T : List Char} {c : Call} (hc : PutCall T' D' c) (hT : T ≠ T')
    (hD : T ≠ D') : T ∉ c.paths := by
  rcases hc with _ | ⟨_ | _ | _ | _ | _⟩ | _ | _ <;> simp [Call.paths, hT, hD]

/-- After its open, `HandlePut` makes only calls of its own and never opens again. -/
theorem handlePut_opened_allCalls (md5 : Bytes → Bytes) (inContainer : Bool)
    {items : List RecvItem} {d : Details} (hd : openedWith items = some d) :
    ∃ k, handlePut md5 inContainer items = .call (.openFile (d.temp inContainer)) k ∧
      ∀ r, (k r).AllCalls fun c =>
        PutCall (d.temp inContainer) (d.dest inContainer) c ∧ c ≠ .openFile (d.temp inContainer) := by
  obtain ⟨rest, -, hprog⟩ := handlePut_of_openedWith md5 inContainer hd
  refine ⟨_, hprog, fun r => ?_⟩
  rcases r with _ | _
  · trivial
  · exact Prog.allCalls_bind ((receiveLoop_allCalls md5 _ _ _ _ _).mono fun c hc =>
      ⟨.loop hc, by rcases hc <;> simp⟩)
      fun _ => Prog.allCalls_bind ((cleanup_allCalls _).mono fun c hc => by
        simp only [List.mem_cons, List.mem_singleton, List.not_mem_nil, or_false] at hc
        rcases hc with rfl | rfl | rfl
        exacts [⟨.loop .close, by simp⟩, ⟨.stat, by simp⟩, ⟨.remove, by simp⟩]) fun _ => trivial

/-- Once the temp file is gone, the calls after the open leave it gone and the
destination alone. -/
theorem opened_keeps {T D : List Char} {c : Call} (hc : PutCall T D c) (ho : c ≠ .openFile T)
    (f : Fault) {t : Fs} (hT : t T = none) :
    (Fs.perform c f t).2 T = none ∧ (Fs.perform c f t).2 D = t D := by
  rcases hc with _ | ⟨_ | _ | _ | _ | _⟩ | _ | _
  · exact absurd rfl ho
  all_goals cases f <;> simp [Fs.perform, Fs.append, hT]

/-- A rename that succeeds moves the file at its source onto its destination. -/
theorem perform_rename_dst {T D : List Char} {f : Fault} {t : Fs}
    (h : (Fs.perform (.rename T D) f t).1 = .ok []) :
    (Fs.perform (.rename T D) f t).2 D = t T ∧ (T ≠ D → (Fs.perform (.rename T D) f t).2 T = none) := by
  cases f with
  | fail e n => simp [Fs.perform] at h
  | ok =>
    cases hT : t T with
    | none => simp [Fs.perform, hT] at h
    | some x =>
      rw [Fs.perform_rename_ok hT]
      exact ⟨by simp, fun hne => by simp [hne]⟩

/-- A successful `HandlePut` run renamed its temp file onto its destination. -/
theorem handlePut_rename_of_ok (md5 : Bytes → Bytes) (inContainer : Bool) {items : List RecvItem}
    {d : Details} (hd : openedWith items = some d) (fs : List Fault) (s : Fs)
    (hok : ((handlePut md5 inContainer items).exec Fs.perform fs s).result = .ok ()) :
    ⟨.rename (d.temp inContainer) (d.dest inContainer), .ok []⟩ ∈
      ((handlePut md5 inContainer items).exec Fs.perform fs s).events := by
  obtain ⟨rest, -, hprog⟩ := handlePut_of_openedWith md5 inContainer hd
  rw [hprog] at hok ⊢
  simp only [Prog.exec_call, Prog.Run.cons_result, Prog.Run.cons_events] at hok ⊢
  generalize Fs.perform _ (fs.headD .ok) s = r at hok ⊢
  rcases r with ⟨_ | _, s'⟩
  · simp at hok
  · simp only [Prog.result_exec_bind, Prog.events_exec_bind, Prog.exec_ret] at hok ⊢
    exact List.mem_cons_of_mem _ (List.mem_append_left _
      (receiveLoop_rename_of_ok md5 _ _ _ _ _ _ _ hok))

/-- **Sequentially, the rename moves the verified bytes.** In a sequential run of
`HandlePut` that reaches its rename of `T` onto `D`, whose rename succeeds and which then
returns success, the stream was `Open d`, chunks `cs` and a `Hash` of their digest, and
`T` held exactly the chunks, with the mode `os.Chmod` sets, when the rename moved it. -/
theorem handlePut_rename_verified (md5 : Bytes → Bytes) (inContainer : Bool)
    {items : List RecvItem} {d : Details} (hd : openedWith items = some d)
    (fa₁ fa₂ : List Fault) (f : Fault) (s₀ : Fs) {k : Reply → Prog (Except Status Unit)}
    (hb : (Prog.runFor Fs.perform fa₁ (handlePut md5 inContainer items) s₀).1 =
      .call (.rename (d.temp inContainer) (d.dest inContainer)) k)
    (hr : (Fs.perform (.rename (d.temp inContainer) (d.dest inContainer)) f
      (Prog.runFor Fs.perform fa₁ (handlePut md5 inContainer items) s₀).2.1).1 = .ok [])
    (hok : (Prog.runFor Fs.perform fa₂ (k (.ok []))
      (Fs.perform (.rename (d.temp inContainer) (d.dest inContainer)) f
        (Prog.runFor Fs.perform fa₁ (handlePut md5 inContainer items) s₀).2.1).2).1 =
        .ret (.ok ())) :
    ∃ cs h tail, items = .ok (.openMsg (some d)) :: (chunks cs ++ .ok (.hashMsg (some h)) :: tail) ∧
      md5 cs.flatten = h.hash ∧
      (Prog.runFor Fs.perform fa₁ (handlePut md5 inContainer items) s₀).2.1 (d.temp inContainer) =
        some ⟨cs.flatten, syscallMode d.mode⟩ := by
  set T := d.temp inContainer
  set D := d.dest inContainer
  set sb := (Prog.runFor Fs.perform fa₁ (handlePut md5 inContainer items) s₀).2.1
  set sr := (Fs.perform (.rename T D) f sb).2
  have hTD : T ≠ D := d.temp_ne_dest inContainer
  -- the whole sequential run returns success
  have hall : (Prog.runFor Fs.perform (fa₁ ++ f :: fa₂) (handlePut md5 inContainer items) s₀).1 =
      .ret (.ok ()) := by
    rw [Prog.runFor_append, hb, Prog.runFor_cons_call, hr]
    exact hok
  have hexec := Prog.exec_of_runFor_ret Fs.perform hall
  have hres : ((handlePut md5 inContainer items).exec Fs.perform (fa₁ ++ f :: fa₂) s₀).result =
      .ok () := by rw [hexec]
  obtain ⟨d', hd', rest, rfl, cs, h, tail, rfl, hmd⟩ :=
    handlePut_accepts_of_ok md5 _ inContainer _ _ _ hres
  obtain rfl : d' = d := Option.some.inj (hd'.symm.trans hd)
  refine ⟨cs, h, tail, rfl, by simpa using hmd, ?_⟩
  -- after the rename, the rest of the run keeps `D`
  obtain ⟨k₀, hk₀, hpost⟩ := handlePut_opened_allCalls md5 inContainer hd
  have hk : (k (.ok [])).AllCalls fun c => PutCall T D c ∧ c ≠ .openFile T := by
    cases fa₁ with
    | nil => rw [Prog.runFor_nil, hk₀] at hb; cases hb
    | cons f₁ fa₁ =>
      rw [hk₀, Prog.runFor_cons_call] at hb
      have := Prog.allCalls_runFor Fs.perform (hpost (Fs.perform (.openFile T) f₁ s₀).1) fa₁
        (Fs.perform (.openFile T) f₁ s₀).2
      rw [hb] at this
      exact this.2 _
  obtain ⟨hsrD, hsrT⟩ := perform_rename_dst hr
  have hkeep := Prog.runFor_inv Fs.perform (fun t => t T = none ∧ t D = sr D) hk
    (fun c f t hc ht => ⟨(opened_keeps hc.1 hc.2 f ht.1).1,
      (opened_keeps hc.1 hc.2 f ht.1).2.trans ht.2⟩) fa₂ ⟨hsrT hTD, rfl⟩
  have hend := handlePut_commit_of_ok md5 inContainer (fa₁ ++ f :: fa₂) s₀ hres
  rw [hexec, Prog.runFor_append, hb, Prog.runFor_cons_call, hr] at hend
  exact hsrD.symm.trans (hkeep.2.symm.trans hend)

/-! ## Two runs on one destination -/

/-- The threads of concurrent `HandlePut` runs on the streams `runs`. -/
def putWorld (md5 : Bytes → Bytes) (inContainer : Bool) (runs : List (List RecvItem)) (fs : Fs) :
    World (Except Status Unit) :=
  ⟨runs.map (handlePut md5 inContainer), fs⟩

/-- Among concurrent `HandlePut` runs none of whose other accepted `Open` messages has
the destination or the temp path of run `a` as destination, run `a` is tracked at its
temp path by its sequential run. -/
theorem putWorld_tracks (md5 : Bytes → Bytes) (inContainer : Bool) {runs : List (List RecvItem)}
    (fs : Fs) {a : Nat} {items : List RecvItem} {d : Details} (ha : runs[a]? = some items)
    (hd : openedWith items = some d)
    (hfree : ∀ j items' d', j ≠ a → runs[j]? = some items' → openedWith items' = some d' →
      d'.dest inContainer ≠ d.dest inContainer ∧ d'.dest inContainer ≠ d.temp inContainer) :
    Tracks a (d.temp inContainer) (putWorld md5 inContainer runs fs)
      (handlePut md5 inContainer items) fs := by
  refine ⟨by simp [putWorld, ha], rfl,
    (handlePut_allCalls md5 inContainer hd).mono fun _ => putCall_readsOnly, fun j q hj hq => ?_⟩
  simp only [putWorld, List.getElem?_map, Option.map_eq_some'] at hq
  obtain ⟨items', hj', rfl⟩ := hq
  cases hd' : openedWith items' with
  | none =>
    obtain ⟨st, hst⟩ := handlePut_of_openedWith_none md5 inContainer hd'
    rw [hst]
    trivial
  | some d' =>
    obtain ⟨hD, hT⟩ := hfree j items' d' hj hj' hd'
    exact (handlePut_allCalls md5 inContainer hd').mono fun c hc =>
      putCall_avoids hc (by simpa [Details.temp] using hD.symm) hT.symm

/-- **Concurrent `HandlePut` runs commit verified bytes when their paths are their own.**
Take any number of `HandlePut` runs on one filesystem, any outcome for each call and
any interleaving of their calls. If run `a` returns success, and no other run whose
`Open` is accepted has `a`'s destination `D` or its temp path `D.tmp` as its
destination, then `a`'s stream was `Open d`, chunks `cs` and a `Hash` of their digest,
`a` renamed its temp file onto `D`, and right after that rename `D` holds exactly the
chunks, with the mode `os.Chmod` sets for `d`'s permissions. -/
theorem concurrent_put_commits_verified (md5 : Bytes → Bytes) (inContainer : Bool)
    (runs : List (List RecvItem)) (fs : Fs) (sched : List Turn) {a : Nat} {items : List RecvItem}
    (ha : runs[a]? = some items)
    (hfree : ∀ j items' d d', j ≠ a → runs[j]? = some items' → openedWith items = some d →
      openedWith items' = some d' →
        d'.dest inContainer ≠ d.dest inContainer ∧ d'.dest inContainer ≠ d.temp inContainer)
    (hok : ((putWorld md5 inContainer runs fs).run sched).1.threads[a]? = some (.ret (.ok ()))) :
    ∃ d cs h tail,
      items = .ok (.openMsg (some d)) :: (chunks cs ++ .ok (.hashMsg (some h)) :: tail) ∧
      md5 cs.flatten = h.hash ∧
      (∃ fs', ⟨a, ⟨.rename (d.temp inContainer) (d.dest inContainer), .ok []⟩, fs'⟩ ∈
        ((putWorld md5 inContainer runs fs).run sched).2) ∧
      ∀ fs', ⟨a, ⟨.rename (d.temp inContainer) (d.dest inContainer), .ok []⟩, fs'⟩ ∈
          ((putWorld md5 inContainer runs fs).run sched).2 →
        fs' (d.dest inContainer) = some ⟨cs.flatten, syscallMode d.mode⟩ := by
  set w := putWorld md5 inContainer runs fs
  have hp0 : w.threads[a]? = some (handlePut md5 inContainer items) := by
    simp [w, putWorld, ha]
  -- a run whose `Open` is refused returns an error at once, and stays returned
  obtain ⟨d, hd⟩ : ∃ d, openedWith items = some d := by
    cases hd : openedWith items with
    | some d => exact ⟨d, rfl⟩
    | none =>
      obtain ⟨st, hst⟩ := handlePut_of_openedWith_none md5 inContainer hd
      rw [hst] at hp0
      cases (World.run_ret hp0 sched).symm.trans hok
  have htr := putWorld_tracks md5 inContainer fs ha hd fun j items' d' hj hj' hd' =>
    hfree j items' d d' hj hj' hd hd'
  obtain ⟨hend, hev⟩ := run_tracks sched htr
  have hret := Option.some.inj (hend.prog.symm.trans hok)
  have hexec := Prog.exec_of_runFor_ret Fs.perform hret
  have hres : ((handlePut md5 inContainer items).exec Fs.perform (faultsOf a sched) fs).result =
      .ok () := by rw [hexec]
  obtain ⟨d', hd', rest, rfl, cs, h, tail, rfl, hmd⟩ :=
    handlePut_accepts_of_ok md5 _ inContainer _ _ _ hres
  obtain rfl : d = d' := Option.some.inj (hd.symm.trans hd')
  refine ⟨d, cs, h, tail, rfl, by simpa using hmd, ?_, ?_⟩
  · -- the sequential run renamed, and its calls are the run's in the trace
    have hmem := handlePut_rename_of_ok md5 inContainer hd _ _ hres
    rw [hexec, hev] at hmem
    simp only [eventsOf, List.mem_map, List.mem_filter, decide_eq_true_eq] at hmem
    obtain ⟨⟨i, ev, fs'⟩, ⟨he, rfl⟩, rfl⟩ := hmem
    exact ⟨fs', he⟩
  · -- at the rename, the world and the sequential run agree at the temp path
    intro fs' he
    obtain ⟨pre, t, post, rfl, hstep⟩ := World.mem_run he
    obtain ⟨c, k, hget, heq⟩ := World.mem_step hstep
    simp only [Step.mk.injEq, Prog.Event.mk.injEq] at heq
    obtain ⟨rfl, ⟨rfl, hr⟩, rfl⟩ := heq
    obtain ⟨hpre, -⟩ := run_tracks pre htr
    have hb := Option.some.inj (hpre.prog.symm.trans hget)
    have hro : ReadsOnly (d.temp inContainer) (.rename (d.temp inContainer) (d.dest inContainer)) := by
      have := hpre.own
      rw [hb] at this
      exact this.1
    have hr' := ((hro t.fault _ _ hpre.view).1).trans hr.symm
    have hpost := hret
    rw [faultsOf_append, faultsOf_cons, if_pos rfl, Prog.runFor_append, hb,
      Prog.runFor_cons_call, hr'] at hpost
    obtain ⟨cs', h', tail', hitems, -, hTb⟩ :=
      handlePut_rename_verified md5 inContainer hd _ _ t.fault fs hb hr' hpost
    obtain ⟨rfl, rfl, rfl⟩ := chunks_append_hash_inj (List.cons.inj hitems).2
    rw [(perform_rename_dst hr.symm).1, ← hpre.view, hTb]

/-- Two uploads to `/tmp/f` share the temp path `/tmp/f.tmp`. The first writes `a`; the
second opens the temp path with `O_TRUNC` before the first closes it; the first then
closes, chmods and renames the emptied file onto `/tmp/f` and returns success. Right
after its rename `/tmp/f` is empty, though the first run received and verified `a`. -/
theorem concurrent_put_commits_truncated :
    let r := (putWorld Md5.md5Sum false
      [[.ok (.openMsg (some ⟨"/tmp/f".toList, 0o644⟩)), .ok (.contents (some [97])),
          .ok (.hashMsg (some ⟨.md5, Md5.md5Sum [97]⟩))],
        [.ok (.openMsg (some ⟨"/tmp/f".toList, 0o644⟩))]] fun _ => none).run
      ([0, 0, 1, 0, 0, 0, 0, 0, 0].map fun i => ⟨i, .ok⟩)
    r.1.threads[0]? = some (.ret (.ok ())) ∧
      ∃ fs', ⟨0, ⟨.rename "/tmp/f.tmp".toList "/tmp/f".toList, .ok []⟩, fs'⟩ ∈ r.2 ∧
        fs' "/tmp/f".toList = some ⟨[], 0o644⟩ := by
  simp only [putWorld, List.map_cons, List.map_nil, handlePut_one_chunk,
    show handlePut Md5.md5Sum false [.ok (.openMsg (some ⟨"/tmp/f".toList, 0o644⟩))] =
      handlePut (fun _ => []) false [.ok (.openMsg (some ⟨"/tmp/f".toList, 0o644⟩))] from rfl]
  exact ⟨rfl, _, @List.getElem?_mem _ _ 5 _ rfl, rfl⟩

/-- Two uploads, of `a` to `/tmp/f` and of `b` to `/tmp/g`, with their calls
alternating: the first returns success, and right after its rename `/tmp/f` holds `a`. -/
theorem concurrent_put_commits_verified_two_files :
    let runs : List (List RecvItem) :=
      [[.ok (.openMsg (some ⟨"/tmp/f".toList, 0o644⟩)), .ok (.contents (some [97])),
          .ok (.hashMsg (some ⟨.md5, Md5.md5Sum [97]⟩))],
        [.ok (.openMsg (some ⟨"/tmp/g".toList, 0o644⟩)), .ok (.contents (some [98])),
          .ok (.hashMsg (some ⟨.md5, Md5.md5Sum [98]⟩))]]
    let sched : List Turn :=
      [0, 1, 0, 1, 0, 1, 0, 1, 0, 1, 0, 1, 0, 1, 0, 1, 0, 1].map fun i => ⟨i, .ok⟩
    ∃ d cs h tail, runs[0]? = some (.ok (.openMsg (some d)) ::
        (chunks cs ++ .ok (.hashMsg (some h)) :: tail)) ∧
      Md5.md5Sum cs.flatten = h.hash ∧
      (∃ fs', ⟨0, ⟨.rename (d.temp false) (d.dest false), .ok []⟩, fs'⟩ ∈
        ((putWorld Md5.md5Sum false runs fun _ => none).run sched).2) ∧
      ∀ fs', ⟨0, ⟨.rename (d.temp false) (d.dest false), .ok []⟩, fs'⟩ ∈
          ((putWorld Md5.md5Sum false runs fun _ => none).run sched).2 →
        fs' (d.dest false) = some ⟨cs.flatten, syscallMode d.mode⟩ := by
  intro runs sched
  obtain ⟨d, cs, h, tail, hitems, hmd, hren, hdst⟩ :=
    @concurrent_put_commits_verified Md5.md5Sum false runs (fun _ => none) sched 0 runs[0] rfl
      (by
        rintro (_ | _ | j) items' d d' hj hr hd hd'
        · exact absurd rfl hj
        · cases hr
          cases hd.symm.trans rfl
          cases hd'.symm.trans rfl
          decide
        · simp [runs] at hr)
      (by
        simp only [runs, putWorld, List.map_cons, List.map_nil, handlePut_one_chunk]
        rfl)
  exact ⟨d, cs, h, tail, by rw [← hitems]; rfl, hmd, hren, hdst⟩

end SonicGnmi.File
