import SonicGnmi.File.Put

/-!
# A single `HandlePut` run commits atomically

Against a filesystem no other request touches, and with any outcome for each call,
`HandlePut` changes the destination only by its final rename, calls that rename only on
a verified stream, leaves every other path but the temp file as it was when the rename
does not succeed, and leaves no temp file behind once it has opened one, provided its
remove succeeds.

* `putCall_keeps` — a call other than a successful rename changes no path but the temp
  file; `Prog.exec_inv` lifts it to whole runs;
* `handlePut_atomic` — the four properties together.
-/

namespace SonicGnmi.File

open SonicGnmi.Path

section Atomic

variable (md5 : Bytes → Bytes)

theorem Details.temp_ne_dest (inContainer : Bool) (d : Details) :
    d.temp inContainer ≠ d.dest inContainer := by
  simp [Details.temp]

/-- Apart from the rename, `HandlePut` names no path but the temp file. -/
theorem PutCall.not_mem_paths {T D q : List Char} {c : Call} (hc : PutCall T D c)
    (hne : c ≠ .rename T D) (hq : q ≠ T) : q ∉ c.paths := by
  rcases hc with _ | ⟨_ | _ | _ | _ | _⟩ | _ | _ <;> simp_all [Call.paths]

theorem handlePut_allCalls (inContainer : Bool) {items : List RecvItem} {d : Details}
    (hd : openedWith items = some d) :
    (handlePut md5 inContainer items).AllCalls (PutCall (d.temp inContainer) (d.dest inContainer)) := by
  obtain ⟨rest, -, hprog⟩ := handlePut_of_openedWith md5 inContainer hd
  rw [hprog]
  refine ⟨.openFile, fun r => ?_⟩
  rcases r with _ | _
  · trivial
  · exact Prog.allCalls_bind ((receiveLoop_allCalls md5 _ _ _ _ _).mono fun _ => .loop)
      fun _ => Prog.allCalls_bind ((cleanup_allCalls _).mono fun c hc => by
        simp only [List.mem_cons, List.mem_singleton, List.not_mem_nil, or_false] at hc
        rcases hc with rfl | rfl | rfl
        exacts [.loop .close, .stat, .remove]) fun _ => trivial

/-- `HandlePut` calls `rename` only on a stream that completes a verified upload. -/
theorem handlePut_no_rename (inContainer : Bool) {d : Details} {rest : List RecvItem}
    (hd : openedWith (.ok (.openMsg (some d)) :: rest) = some d) (hv : ¬Verified md5 rest []) :
    (handlePut md5 inContainer (.ok (.openMsg (some d)) :: rest)).AllCalls
      (· ≠ .rename (d.temp inContainer) (d.dest inContainer)) := by
  obtain ⟨rest', hrest, hprog⟩ := handlePut_of_openedWith md5 inContainer hd
  cases hrest
  rw [hprog]
  refine ⟨by simp, fun r => ?_⟩
  rcases r with _ | _
  · trivial
  · exact Prog.allCalls_bind (receiveLoop_no_rename md5 _ _ _ _ _ hv) fun _ =>
      Prog.allCalls_bind ((cleanup_allCalls _).mono fun c hc h => by simp [h] at hc) fun _ => trivial

/-- A run of `HandlePut` renames only on a stream that carries a `Hash` message. -/
theorem hash_mem_of_rename (inContainer : Bool) (items : List RecvItem) (fs : List Fault) (s : Fs)
    {T D : List Char}
    (hr : ⟨.rename T D, .ok []⟩ ∈ ((handlePut md5 inContainer items).exec Fs.perform fs s).events) :
    ∃ h, .ok (.hashMsg (some h)) ∈ items := by
  cases hd : openedWith items with
  | none =>
    obtain ⟨st, hst⟩ := handlePut_of_openedWith_none md5 inContainer hd
    simp [hst] at hr
  | some d =>
    obtain ⟨rest, rfl, -⟩ := handlePut_of_openedWith md5 inContainer hd
    have hc := Prog.mem_exec_allCalls _ (handlePut_allCalls md5 inContainer hd) fs s _ hr
    obtain ⟨rfl, rfl⟩ : T = d.temp inContainer ∧ D = d.dest inContainer := by
      rcases hc with _ | ⟨_ | _ | _ | _ | _⟩ | _ | _
      exact ⟨rfl, rfl⟩
    by_contra hno
    have hv : ¬Verified md5 rest [] := by
      rintro ⟨cs, h, tail, rfl, -⟩
      exact hno ⟨h, by simp⟩
    exact Prog.mem_exec_allCalls _ (handlePut_no_rename md5 inContainer hd hv) fs s _ hr rfl

/-- The deferred cleanup leaves no temp file when its remove succeeds. -/
theorem cleanup_removes (T : List Char) (fs : List Fault) (s : Fs)
    (hrm : ∀ e ∈ ((cleanup T).exec Fs.perform fs s).events, e.call = .remove T →
      e.reply = .ok []) :
    ((cleanup T).exec Fs.perform fs s).state T = none := by
  simp only [cleanup, Prog.exec_call, Fs.perform_close, Fs.perform_stat] at hrm ⊢
  cases hT : s T with
  | none => simp [hT]
  | some f =>
    simp only [hT, Option.isSome_some, if_true, Prog.exec_call] at hrm ⊢
    generalize fs.tail.tail.headD .ok = f3 at hrm ⊢
    cases f3 with
    | ok => simp [Fs.perform_remove_ok hT]
    | fail e n =>
      simp [Prog.Run.cons] at hrm

/-- What a call of `HandlePut` other than a successful rename keeps: every path but the
temp file. -/
theorem putCall_keeps {T D : List Char} {c : Call} (hc : PutCall T D c) (f : Fault) (t s : Fs)
    (hinv : ∀ q ≠ T, t q = s q)
    (hg : (⟨c, (Fs.perform c f t).1⟩ : Prog.Event) ≠ ⟨.rename T D, .ok []⟩) :
    ∀ q ≠ T, (Fs.perform c f t).2 q = s q := by
  intro q hq
  by_cases hr : c = .rename T D
  · subst hr
    rw [Fs.perform_rename_of_reply_ne (fun h => hg (by rw [h])), hinv q hq]
  · rw [Fs.perform_frame c f t (hc.not_mem_paths hr hq), hinv q hq]

/-- The run of the `Open`ed upload, cut after the open: the receive loop and then the
cleanup, whose state is the run's. -/
theorem handlePut_exec_opened (inContainer : Bool) {d : Details} {rest : List RecvItem}
    (hd : openedWith (.ok (.openMsg (some d)) :: rest) = some d) (fs : List Fault) (s : Fs)
    (ho : ⟨.openFile (d.temp inContainer), .ok []⟩ ∈
      ((handlePut md5 inContainer (.ok (.openMsg (some d)) :: rest)).exec Fs.perform fs s).events) :
    ∃ fs' s', ((handlePut md5 inContainer (.ok (.openMsg (some d)) :: rest)).exec
        Fs.perform fs s).state = ((cleanup (d.temp inContainer)).exec Fs.perform fs' s').state ∧
      ((cleanup (d.temp inContainer)).exec Fs.perform fs' s').events ⊆
        ((handlePut md5 inContainer (.ok (.openMsg (some d)) :: rest)).exec Fs.perform fs s).events := by
  obtain ⟨rest', hrest, hprog⟩ := handlePut_of_openedWith md5 inContainer hd
  cases hrest
  rw [hprog] at ho ⊢
  simp only [Prog.exec_call, Fs.perform_openFile_ok, Prog.Run.cons_state, Prog.Run.cons_events] at ho ⊢
  generalize fs.headD .ok = f at ho ⊢
  cases f with
  | fail e n =>
    simp at ho
  | ok =>
    simp only [Fs.perform_openFile_ok, Prog.state_exec_bind, Prog.events_exec_bind, Prog.exec_ret,
      List.append_nil]
    exact ⟨_, _, rfl, fun e he => List.mem_cons_of_mem _ (List.mem_append_right _ he)⟩

/-- **`HandlePut` commits atomically.** On every stream and with every outcome of every
call, either `HandlePut` refuses the `Open` and makes no call, or it accepted the `Open`
message `d` and, with `T` and `D` its temp path and destination: every call but
`rename T D` leaves `D` alone in every state; `rename T D` is called only once the
stream has delivered chunks and a `Hash` of their digest; a run with no successful
rename leaves every path but `T` as it was; and once `T` is opened, a run whose removes
succeed leaves no file at `T`. -/
theorem handlePut_atomic (inContainer : Bool) (items : List RecvItem) (fs : List Fault)
    (s : Fs) :
    let r := (handlePut md5 inContainer items).exec Fs.perform fs s
    (r.events = [] ∧ r.state = s) ∨
      ∃ d rest, items = .ok (.openMsg (some d)) :: rest ∧ openedWith items = some d ∧
        let T := d.temp inContainer
        let D := d.dest inContainer
        (∀ e ∈ r.events, e.call ≠ .rename T D → ∀ f t, (Fs.perform e.call f t).2 D = t D) ∧
        (∀ e ∈ r.events, e.call = .rename T D → Verified md5 rest []) ∧
        ((⟨.rename T D, .ok []⟩ : Prog.Event) ∉ r.events → ∀ q ≠ T, r.state q = s q) ∧
        ((⟨.openFile T, .ok []⟩ : Prog.Event) ∈ r.events →
          (∀ e ∈ r.events, e.call = .remove T → e.reply = .ok []) → r.state T = none) := by
  intro r
  cases hd : openedWith items with
  | none =>
    obtain ⟨st, hres⟩ := handlePut_of_openedWith_none md5 inContainer hd
    exact .inl (by simp [r, hres])
  | some d =>
    obtain ⟨rest, rfl, -⟩ := handlePut_of_openedWith md5 inContainer hd
    have hall := handlePut_allCalls md5 inContainer hd
    refine .inr ⟨d, rest, rfl, rfl, ?frame, ?verified, ?untouched, ?removed⟩
    case frame =>
      intro e he hne f t
      exact Fs.perform_frame _ _ _ ((Prog.mem_exec_allCalls _ hall fs s e he).not_mem_paths hne
        (d.temp_ne_dest inContainer).symm)
    case verified =>
      intro e he hre
      by_contra hv
      exact Prog.mem_exec_allCalls _ (handlePut_no_rename md5 inContainer hd hv) fs s e he hre
    case untouched =>
      intro hr
      exact Prog.exec_inv (fun t => ∀ q ≠ d.temp inContainer, t q = s q)
        (· ≠ ⟨.rename _ _, .ok []⟩) _ hall
        (fun c f t hc hinv hg => putCall_keeps hc f t s hinv hg) fs (fun _ _ => rfl)
        (fun e he h => hr (h ▸ he))
    case removed =>
      intro ho hrm
      obtain ⟨fs', s', hst, hsub⟩ := handlePut_exec_opened md5 inContainer hd fs s ho
      rw [hst]
      exact cleanup_removes _ fs' s' fun e he => hrm e (hsub he)

end Atomic

end SonicGnmi.File
