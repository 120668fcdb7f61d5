import SonicGnmi.Strings

/-!
# `parseMethod`, switch-based and table-driven

The authorization middleware maps a gRPC full method name `/package.Service/Method`
to the service it authorizes (`gnoi`, `gnmi`, `unknown`, or empty to skip the check)
and whether the method writes. Two versions of `parseMethod` are in the source: one
matches the service with `strings.Contains` and lists the write methods in a `switch`
(`Switch.parseMethod`); the other splits the name and looks the method up in the
tables `gnoiMethods` and `gnmiMethods` (`Table.parseMethod`).

`parseMethod_refines_switch`: on every gNOI System and gNMI method name the two give
the same service and the same write flag, so the move to tables changes no
authorization decision there. Both facts the proof needs hold for every method name
without a `/`: the name splits into exactly three parts, and the gNMI name cannot
contain `/gnoi.system.System/` (`infix_of_infix_append`).

On the File service the two differ. The switch does not know it and returns `unknown`
(`switch_parseMethod_gnoi_file`); the table knows the service but lists none of its
methods, so every File method, `Put`, `Remove` and `TransferToRemote` included, asks for
read access to `gnoi` (`table_parseMethod_gnoi_file`).

`parseMethod_other_services`: on every other service the switch returns `unknown`, and the
table `gnoi` for every service whose name starts with `gnoi.` (with the access its table
gives, read by default) and `unknown` otherwise, so the two differ exactly on the gNOI
services other than System. The switch's `strings.Contains` test finds `/T/` in `/S/M`
only when `T` is `S` (`contains_slashed_iff`).
-/

namespace SonicGnmi.Auth

/-- `gnoiMethods`: gNOI `service.Method` keys and whether they need write access. -/
def gnoiMethods : List (List Char × Bool) :=
  [("system.SetPackage".toList, true), ("system.Reboot".toList, true),
    ("system.KillProcess".toList, true), ("system.SwitchControlProcessor".toList, true),
    ("system.CancelReboot".toList, true), ("system.Ping".toList, false),
    ("system.Traceroute".toList, false), ("system.Time".toList, false),
    ("system.RebootStatus".toList, false)]

/-- `gnmiMethods`: gNMI method names and whether they need write access. -/
def gnmiMethods : List (List Char × Bool) :=
  [("Set".toList, true), ("Get".toList, false), ("Subscribe".toList, false)]

/-- Methods of gRPC reflection and health checking skip authorization. -/
def isSystemService (fullMethod : List Char) : Bool :=
  contains fullMethod "grpc.reflection".toList || contains fullMethod "grpc.health".toList

namespace Table

/-- `parseMethod(fullMethod)` of the table-driven middleware. -/
def parseMethod (fullMethod : List Char) : String × Bool :=
  if isSystemService fullMethod then ("", false) else
  let parts := split fullMethod '/'
  if parts.length < 3 then ("unknown", false) else
  let grpcServiceName := parts.getD 1 []
  let methodName := parts.getD 2 []
  if hasPrefix grpcServiceName "gnoi.".toList then
    let serviceParts := split grpcServiceName '.'
    if serviceParts.length ≥ 2 then
      let serviceMethod := serviceParts.getD 1 [] ++ '.' :: methodName
      match List.lookup serviceMethod gnoiMethods with
      | some writeAccess => ("gnoi", writeAccess)
      | none => ("gnoi", false)
    else ("gnoi", false)
  else if grpcServiceName = "gnmi.gNMI".toList then
    match List.lookup methodName gnmiMethods with
    | some writeAccess => ("gnmi", writeAccess)
    | none => ("gnmi", false)
  else ("unknown", false)

end Table

namespace Switch

/-- `writeOps`: the gNOI System methods that need write access. -/
def writeOps : List (List Char) :=
  ["Reboot".toList, "KillProcess".toList, "SetPackage".toList,
    "SwitchControlProcessor".toList, "CancelReboot".toList]

/-- `parseMethod(fullMethod)` of the switch-based middleware. -/
def parseMethod (fullMethod : List Char) : String × Bool :=
  if isSystemService fullMethod then ("", false)
  else if contains fullMethod "/gnoi.system.System/".toList then
    let parts := split fullMethod '/'
    if parts.length ≥ 3 then
      let methodName := parts.getLastD []
      if writeOps.contains methodName then ("gnoi", true) else ("gnoi", false)
    else ("gnoi", false)
  else if contains fullMethod "/gnmi.gNMI/".toList then
    let parts := split fullMethod '/'
    if parts.length ≥ 3 then
      let methodName := parts.getLastD []
      if methodName = "Set".toList then ("gnmi", true) else ("gnmi", false)
    else ("gnmi", false)
  else ("unknown", false)

end Switch

/-! ## The services the middleware sees -/

/-- What the middleware needs of a `parseMethod`: it gives the empty service, which skips
the check, exactly on gRPC reflection and health methods, and otherwise `gnoi`, `gnmi` or
`unknown`. -/
def SkipsSystemServices (parseMethod : List Char → String × Bool) : Prop :=
  ∀ fullMethod, isSystemService fullMethod = true ∧ (parseMethod fullMethod).1 = "" ∨
    isSystemService fullMethod = false ∧ (parseMethod fullMethod).1 ∈ ["gnoi", "gnmi", "unknown"]

theorem Table.parseMethod_skips : SkipsSystemServices Table.parseMethod := by
  intro fullMethod
  by_cases h : isSystemService fullMethod = true
  · exact .inl ⟨h, by rw [Table.parseMethod, if_pos h]⟩
  · refine .inr ⟨by simpa using h, ?_⟩
    unfold Table.parseMethod
    dsimp only
    rw [if_neg h]
    split_ifs <;> (try split) <;> simp

theorem Switch.parseMethod_skips : SkipsSystemServices Switch.parseMethod := by
  intro fullMethod
  by_cases h : isSystemService fullMethod = true
  · exact .inl ⟨h, by rw [Switch.parseMethod, if_pos h]⟩
  · refine .inr ⟨by simpa using h, ?_⟩
    unfold Switch.parseMethod
    dsimp only
    rw [if_neg h]
    split_ifs <;> simp

/-- Under `SkipsSystemServices`, the service is empty exactly on reflection and health
methods. -/
theorem SkipsSystemServices.service_eq_empty {parseMethod : List Char → String × Bool}
    (hp : SkipsSystemServices parseMethod) (fullMethod : List Char) :
    (parseMethod fullMethod).1 = "" ↔ isSystemService fullMethod = true := by
  rcases hp fullMethod with ⟨hs, he⟩ | ⟨hs, hm⟩
  · simp [hs, he]
  · simp only [hs, Bool.false_eq_true, iff_false]
    rintro he
    simp [he] at hm

/-! ## The two agree on gNOI System and gNMI methods -/

/-- A pattern ending in `c` found in `pre ++ m`, where `m` has no `c`, lies in `pre`. -/
theorem infix_of_infix_append {pat pre m : List Char} {c : Char} (hm : c ∉ m)
    (h : pat ++ [c] <:+: pre ++ m) : pat ++ [c] <:+: pre := by
  obtain ⟨s, t, hst⟩ := h
  rcases List.append_eq_append_iff.mp hst with ⟨a, rfl, -⟩ | ⟨b, hb, rfl⟩
  · exact ⟨s, a, rfl⟩
  · rcases List.eq_nil_or_concat b with rfl | ⟨b', x, rfl⟩
    · exact ⟨s, [], by simpa using hb⟩
    · have hx : c = x := by
        have := congrArg List.getLast? hb
        simpa [← List.append_assoc] using this
      exact absurd (by simp [hx]) hm

theorem split_method {S M : List Char} (hS : '/' ∉ S) (hM : '/' ∉ M) :
    split ('/' :: S ++ '/' :: M) '/' = [[], S, M] := by
  have h : '/' :: S ++ '/' :: M = ['/'].intercalate [[], S, M] := by
    simp [List.intercalate]
  rw [h, split_intercalate (by simp [hS, hM]) (by simp)]

theorem lookup_cons_of_ne {k a : List Char} {b : Bool} {l : List (List Char × Bool)}
    (h : k ≠ a) : List.lookup k ((a, b) :: l) = List.lookup k l := by
  rw [List.lookup_cons, beq_eq_false_iff_ne.mpr h]

/-- A key with no `true` entry in a method table reads as read access. -/
theorem lookup_getD_false {k : List Char} {l : List (List Char × Bool)} (h : (k, true) ∉ l) :
    (List.lookup k l).getD false = false := by
  induction l with
  | nil => rfl
  | cons e l ih =>
    obtain ⟨a, b⟩ := e
    by_cases hk : k = a
    · subst hk
      cases b <;> simp_all
    · rw [lookup_cons_of_ne hk]
      exact ih (fun h' => h (List.mem_cons_of_mem _ h'))

theorem lookup_append_map {pre k : List Char} (l : List (List Char × Bool)) :
    List.lookup (pre ++ k) (l.map fun e => (pre ++ e.1, e.2)) = List.lookup k l := by
  induction l with
  | nil => rfl
  | cons e l ih =>
    obtain ⟨a, b⟩ := e
    by_cases hk : k = a
    · simp [hk]
    · rw [List.map_cons, lookup_cons_of_ne (by simpa using hk), ih, lookup_cons_of_ne hk]

/-- The gNOI table gives a System method write access exactly when `writeOps` lists it. -/
theorem lookup_gnoiMethods (M : List Char) :
    (List.lookup ("system".toList ++ '.' :: M) gnoiMethods).getD false =
      Switch.writeOps.contains M := by
  by_cases h : M ∈ Switch.writeOps
  · simp only [Switch.writeOps, List.mem_cons, List.mem_singleton, List.not_mem_nil,
      or_false] at h
    rcases h with rfl | rfl | rfl | rfl | rfl <;> decide
  · have hg : gnoiMethods = ([("SetPackage".toList, true), ("Reboot".toList, true),
        ("KillProcess".toList, true), ("SwitchControlProcessor".toList, true),
        ("CancelReboot".toList, true), ("Ping".toList, false), ("Traceroute".toList, false),
        ("Time".toList, false), ("RebootStatus".toList, false)] :
          List (List Char × Bool)).map fun e => ("system.".toList ++ e.1, e.2) := by
      decide
    rw [hg, show "system".toList ++ '.' :: M = "system.".toList ++ M by simp,
      lookup_append_map, lookup_getD_false]
    · simpa using h
    · simp only [Switch.writeOps] at h
      simp_all

/-- The gNMI table gives write access to `Set` alone. -/
theorem lookup_gnmiMethods (M : List Char) :
    (List.lookup M gnmiMethods).getD false = decide (M = "Set".toList) := by
  by_cases h : M = "Set".toList
  · subst h; decide
  · rw [lookup_getD_false (by simpa [gnmiMethods] using h)]
    simpa using h

/-- **The table refactor changes no decision.** For every method `M` without a `/`, the
table-driven `parseMethod` returns on `/gnoi.system.System/M` and on `/gnmi.gNMI/M` the
same service and write flag as the switch-based one. -/
theorem parseMethod_refines_switch {S M : List Char}
    (hS : S = "gnoi.system.System".toList ∨ S = "gnmi.gNMI".toList) (hM : '/' ∉ M) :
    Table.parseMethod ('/' :: S ++ '/' :: M) = Switch.parseMethod ('/' :: S ++ '/' :: M) := by
  unfold Table.parseMethod Switch.parseMethod
  dsimp only
  by_cases hsys : isSystemService ('/' :: S ++ '/' :: M)
  · rw [if_pos hsys, if_pos hsys]
  rw [if_neg hsys, if_neg hsys]
  rcases hS with rfl | rfl
  · -- gNOI System: both match the service; the table key is `system.M`
    have hc : contains ('/' :: "gnoi.system.System".toList ++ '/' :: M)
        "/gnoi.system.System/".toList = true := by
      rw [contains_eq_true]
      exact ⟨[], M, by simp⟩
    have hparts : split ("gnoi.system.System".toList) '.' =
        ["gnoi".toList, "system".toList, "System".toList] := by decide
    have hpre : hasPrefix "gnoi.system.System".toList "gnoi.".toList = true := by decide
    simp only [hc, @split_method "gnoi.system.System".toList M (by decide) hM, hparts, hpre,
      List.getD_cons_zero, List.getD_cons_succ, List.length_cons, List.length_nil,
      List.getLastD_cons, List.getLastD_nil, if_true]
    have hl := lookup_gnoiMethods M
    cases h : List.lookup ("system".toList ++ '.' :: M) gnoiMethods with
    | none => rw [h] at hl; rw [← hl]; rfl
    | some w => rw [h] at hl; rw [← hl]; cases w <;> rfl
  · -- gNMI: the switch cannot see `/gnoi.system.System/` in the name
    have hc1 : contains ('/' :: "gnmi.gNMI".toList ++ '/' :: M)
        "/gnoi.system.System/".toList = false := by
      rw [Bool.eq_false_iff, ne_eq, contains_eq_true]
      intro h
      have h' : "/gnoi.system.System".toList ++ ['/'] <:+: "/gnmi.gNMI/".toList ++ M := h
      exact absurd (infix_of_infix_append hM h') (by decide)
    have hc2 : contains ('/' :: "gnmi.gNMI".toList ++ '/' :: M) "/gnmi.gNMI/".toList = true := by
      rw [contains_eq_true]
      exact ⟨[], M, by simp⟩
    have hpre : hasPrefix "gnmi.gNMI".toList "gnoi.".toList = false := by decide
    simp only [hc1, hc2, @split_method "gnmi.gNMI".toList M (by decide) hM, hpre,
      List.getD_cons_zero, List.getD_cons_succ, List.length_cons, List.length_nil,
      List.getLastD_cons, List.getLastD_nil, if_true, Bool.false_eq_true, if_false]
    have hl := lookup_gnmiMethods M
    revert hl
    cases List.lookup M gnmiMethods with
    | none => by_cases hs : M = ['S', 'e', 't'] <;> simp [hs]
    | some w => by_cases hs : M = ['S', 'e', 't'] <;> cases w <;> simp [hs]

theorem parseMethod_refines_switch_reboot :
    '/' ∉ "Reboot".toList ∧
      Table.parseMethod ('/' :: "gnoi.system.System".toList ++ '/' :: "Reboot".toList) =
        Switch.parseMethod ('/' :: "gnoi.system.System".toList ++ '/' :: "Reboot".toList) :=
  ⟨by decide, parseMethod_refines_switch (.inl rfl) (by decide)⟩

/-! ## The File service -/

/-- The switch knows two services: the File service is `unknown` to it. -/
theorem switch_parseMethod_gnoi_file {M : List Char} (hM : '/' ∉ M)
    (hsys : isSystemService ('/' :: "gnoi.file.File".toList ++ '/' :: M) = false) :
    Switch.parseMethod ('/' :: "gnoi.file.File".toList ++ '/' :: M) = ("unknown", false) := by
  have hc : ∀ pat : List Char, ¬pat ++ ['/'] <:+: "/gnoi.file.File/".toList →
      contains ('/' :: "gnoi.file.File".toList ++ '/' :: M) (pat ++ ['/']) = false := by
    intro pat hpat
    rw [Bool.eq_false_iff, ne_eq, contains_eq_true]
    exact fun h => hpat (infix_of_infix_append hM h)
  have hsys' : contains ('/' :: "gnoi.file.File".toList ++ '/' :: M)
      "/gnoi.system.System/".toList = false := hc "/gnoi.system.System".toList (by decide)
  have hgnmi : contains ('/' :: "gnoi.file.File".toList ++ '/' :: M)
      "/gnmi.gNMI/".toList = false := hc "/gnmi.gNMI".toList (by decide)
  simp only [Switch.parseMethod, hsys, hsys', hgnmi, Bool.false_eq_true, if_false]

/-- The gNOI table lists System methods only, so the table-driven `parseMethod` sends
every File method to the read default. -/
theorem table_parseMethod_gnoi_file {M : List Char} (hM : '/' ∉ M)
    (hsys : isSystemService ('/' :: "gnoi.file.File".toList ++ '/' :: M) = false) :
    Table.parseMethod ('/' :: "gnoi.file.File".toList ++ '/' :: M) = ("gnoi", false) := by
  have hparts : split "gnoi.file.File".toList '.' =
      ["gnoi".toList, "file".toList, "File".toList] := by decide
  have hpre : hasPrefix "gnoi.file.File".toList "gnoi.".toList = true := by decide
  have hl : (List.lookup ("file".toList ++ '.' :: M) gnoiMethods).getD false = false :=
    lookup_getD_false (by simp [gnoiMethods])
  unfold Table.parseMethod
  dsimp only
  simp only [hsys, @split_method "gnoi.file.File".toList M (by decide) hM, hparts, hpre,
    List.getD_cons_zero, List.getD_cons_succ, List.length_cons, List.length_nil, if_true,
    Bool.false_eq_true, if_false]
  cases h : List.lookup ("file".toList ++ '.' :: M) gnoiMethods with
  | none => rfl
  | some w => rw [h] at hl; cases hl; rfl

example : Table.parseMethod "/gnoi.file.File/Put".toList = ("gnoi", false) := by decide

/-! ## Every other service -/

/-- In a method name `/S/M` with `S` and `M` free of slashes, `/T/` occurs exactly when
`T` is `S`. -/
theorem contains_slashed_iff {S T M : List Char} (hS : '/' ∉ S) (hT : '/' ∉ T) (hM : '/' ∉ M) :
    contains ('/' :: S ++ '/' :: M) ('/' :: T ++ ['/']) = true ↔ T = S := by
  rw [contains_eq_true]
  refine ⟨fun h => ?_, by rintro rfl; exact ⟨[], M, by simp⟩⟩
  have h' : ('/' :: T) ++ ['/'] <:+: ('/' :: S ++ ['/']) ++ M := by simpa using h
  obtain ⟨a, b, hab⟩ := infix_of_infix_append hM h'
  have hS0 := List.count_eq_zero_of_not_mem hS
  have hT0 := List.count_eq_zero_of_not_mem hT
  rcases a with _ | ⟨c, a⟩
  · -- the pattern starts at the first slash and ends at the second
    simp only [List.nil_append, List.cons_append, List.append_assoc, List.singleton_append,
      List.cons.injEq, true_and] at hab
    exact ((List.append_cons_inj_of_not_mem hS (List.not_mem_nil _)).mp hab.symm).1.symm
  · -- a later start would need a third slash
    simp only [List.cons_append, List.append_assoc, List.singleton_append, List.cons.injEq] at hab
    have := congrArg (List.count '/') hab.2
    simp [List.count_append, List.count_cons, hS0, hT0] at this
    omega


/-- The switch knows two services by name: any other is `unknown`, with read access. -/
theorem switch_parseMethod_other {S M : List Char} (hS : '/' ∉ S) (hM : '/' ∉ M)
    (hsys : isSystemService ('/' :: S ++ '/' :: M) = false)
    (hsy : S ≠ "gnoi.system.System".toList) (hgn : S ≠ "gnmi.gNMI".toList) :
    Switch.parseMethod ('/' :: S ++ '/' :: M) = ("unknown", false) := by
  have hc1 : contains ('/' :: S ++ '/' :: M) "/gnoi.system.System/".toList = false :=
    Bool.eq_false_iff.mpr fun h =>
      hsy ((@contains_slashed_iff S "gnoi.system.System".toList M hS (by decide) hM).mp h).symm
  have hc2 : contains ('/' :: S ++ '/' :: M) "/gnmi.gNMI/".toList = false :=
    Bool.eq_false_iff.mpr fun h =>
      hgn ((@contains_slashed_iff S "gnmi.gNMI".toList M hS (by decide) hM).mp h).symm
  simp only [Switch.parseMethod, hsys, hc1, hc2, Bool.false_eq_true, if_false]

/-- The table-driven `parseMethod` on a service other than gNMI: a `gnoi.` service reads
the gNOI table at `<second component>.<M>`, read access by default; any other is
`unknown`. -/
theorem table_parseMethod_other {S M : List Char} (hS : '/' ∉ S) (hM : '/' ∉ M)
    (hsys : isSystemService ('/' :: S ++ '/' :: M) = false) (hgn : S ≠ "gnmi.gNMI".toList) :
    Table.parseMethod ('/' :: S ++ '/' :: M) =
      if hasPrefix S "gnoi.".toList then
        ("gnoi", (List.lookup ((split S '.').getD 1 [] ++ '.' :: M) gnoiMethods).getD false)
      else ("unknown", false) := by
  unfold Table.parseMethod
  dsimp only
  simp only [hsys, split_method hS hM, List.getD_cons_zero, List.getD_cons_succ,
    List.length_cons, List.length_nil, Bool.false_eq_true, if_false]
  by_cases hp : hasPrefix S "gnoi.".toList = true
  · -- `S` is `gnoi.` and more: splitting at dots gives at least two parts
    obtain ⟨rest, rfl⟩ := hasPrefix_eq_true.mp hp
    have hsplit : split ("gnoi.".toList ++ rest) '.' = "gnoi".toList :: split rest '.' :=
      split_append_cons (w := "gnoi".toList) (by decide)
    have hlen : (split ("gnoi.".toList ++ rest) '.').length ≥ 2 := by
      rw [hsplit, List.length_cons]
      have := List.length_pos.mpr (split_ne_nil rest '.')
      omega
    simp only [hp, if_true, if_pos hlen]
    cases List.lookup ((split ("gnoi.".toList ++ rest) '.').getD 1 [] ++ '.' :: M) gnoiMethods <;>
      rfl
  · simp only [hp, Bool.false_eq_true, if_false, if_neg hgn, ite_self]

/-- **Outside gNOI System and gNMI, the table refactor changes decisions exactly for gNOI
services.** For every method name `/S/M` with `S` and `M` free of slashes, that is not a
reflection or health method, and whose service is neither `gnoi.system.System` nor
`gnmi.gNMI`: the switch-based `parseMethod` returns `unknown` with read access; the
table-driven one returns `gnoi`, with the access its gNOI table gives
`<second component of S>.<M>` (read when the table has no entry), for every `S` starting
with `gnoi.`, and `unknown` with read access for every other `S`. So the two agree exactly
when `S` does not start with `gnoi.`. -/
theorem parseMethod_other_services {S M : List Char} (hS : '/' ∉ S) (hM : '/' ∉ M)
    (hsys : isSystemService ('/' :: S ++ '/' :: M) = false)
    (hsy : S ≠ "gnoi.system.System".toList) (hgn : S ≠ "gnmi.gNMI".toList) :
    Switch.parseMethod ('/' :: S ++ '/' :: M) = ("unknown", false) ∧
      Table.parseMethod ('/' :: S ++ '/' :: M) =
        (if hasPrefix S "gnoi.".toList then
          ("gnoi", (List.lookup ((split S '.').getD 1 [] ++ '.' :: M) gnoiMethods).getD false)
        else ("unknown", false)) ∧
      (Table.parseMethod ('/' :: S ++ '/' :: M) = Switch.parseMethod ('/' :: S ++ '/' :: M) ↔
        hasPrefix S "gnoi.".toList = false) := by
  have hsw := switch_parseMethod_other hS hM hsys hsy hgn
  have htb := table_parseMethod_other hS hM hsys hgn
  refine ⟨hsw, htb, ?_⟩
  rw [hsw, htb]
  cases hasPrefix S "gnoi.".toList <;> simp

/-- The gNOI OS service's `Install`: `unknown` to the switch, a `gnoi` read to the table. -/
theorem parseMethod_other_services_os_install :
    '/' ∉ "gnoi.os.OS".toList ∧ '/' ∉ "Install".toList ∧
      isSystemService ('/' :: "gnoi.os.OS".toList ++ '/' :: "Install".toList) = false ∧
      Switch.parseMethod ('/' :: "gnoi.os.OS".toList ++ '/' :: "Install".toList) =
        ("unknown", false) ∧
      Table.parseMethod ('/' :: "gnoi.os.OS".toList ++ '/' :: "Install".toList) ≠
        Switch.parseMethod ('/' :: "gnoi.os.OS".toList ++ '/' :: "Install".toList) :=
  ⟨by decide, by decide, by decide,
    (parseMethod_other_services (by decide) (by decide) (by decide) (by decide) (by decide)).1,
    fun h => absurd ((parseMethod_other_services (by decide) (by decide) (by decide) (by decide)
      (by decide)).2.2.mp h) (by decide)⟩


end SonicGnmi.Auth
