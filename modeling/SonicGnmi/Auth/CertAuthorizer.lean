import SonicGnmi.Strings
import SonicGnmi.File.Messages

/-!
# `CertAuthorizer`, the role check of the authorization middleware

`CheckAccess` takes the common name of the client certificate, looks up the roles
ConfigDB lists for it, and lets the request through when `hasAccess` does. A role
`<service>_<level>` speaks for one service: `readwrite` grants, `readonly` grants a read,
`noaccess` denies. `hasAccess` scans the roles in order and returns at the first role that
decides; a `readonly` role asked for a write, and a role of another service, are passed
over.

* `hasAccess_eq_findSome` — the loop returns the first decision along the list;
* `hasAccess_perm_of_no_deny` — on role lists where no role denies, the order of the
  roles does not matter;
* `hasAccess_order_dependent` — where one role grants and another denies, it does: for
  every service and access mode, the role first in the list wins;
* `hasAccess_perm_invariant_iff` — every reordering of a role list gets the same decision
  exactly when the list does not hold both a granting and a denying role;
* `checkAccess_eq_none_iff` — `CheckAccess` lets a request through exactly when the
  certificate has a common name with roles and `hasAccess` grants, `Grants` in terms of
  the first role that decides;
* `checkAccess_read_of_write` — whoever may write a service may read it, whatever the
  order of the roles;
* `hasAccess_filter_service` — only the roles `<service>_…` of the service asked for
  decide.
-/

namespace SonicGnmi.Auth

open SonicGnmi.File (Status)

/-- The peer of a call as `extractCN` reads it from the context: the verified chains of
its TLS state when it authenticated with TLS, each certificate given by its subject's
common name. -/
structure Peer where
  tlsVerifiedChains : Option (List (List (List Char)))

/-- `extractCN(ctx)`: the common name of the first certificate of the first verified
chain. -/
def extractCN : Option Peer → Except String (List Char)
  | none => .error "no peer context"
  | some ⟨none⟩ => .error "no TLS info"
  | some ⟨some chains⟩ =>
    match chains with
    | (cn :: _) :: _ => if cn = [] then .error "certificate has no common name" else .ok cn
    | _ => .error "no verified certificate chain"

/-- `getRoles(cn)`: the roles `clientAuth.GetRolesForCN(cn)` returns, an error when there
are none. `rolesForCN` is that lookup in ConfigDB, whose code is not under the sources. -/
def getRoles (rolesForCN : List Char → List (List Char)) (cn : List Char) :
    Except String (List (List Char)) :=
  if rolesForCN cn = [] then .error ("no roles found for CN: " ++ String.mk cn)
  else .ok (rolesForCN cn)

/-- `hasAccess(roles, service, writeAccess)`: the loop over the roles, returning at the
first `readwrite`, the first `readonly` asked for a read, or the first `noaccess` of the
service. -/
def hasAccess : List (List Char) → List Char → Bool → Bool
  | [], _, _ => false
  | role :: roles, service, writeAccess =>
    if hasPrefix role service then
      let suffix := trimPrefix role (service ++ "_".toList)
      if suffix = "readwrite".toList then true
      else if suffix = "readonly".toList ∧ !writeAccess then true
      else if suffix = "noaccess".toList then false
      else hasAccess roles service writeAccess
    else hasAccess roles service writeAccess

/-- `CheckAccess(ctx, service, writeAccess)`: `none` lets the request through. -/
def checkAccess (rolesForCN : List Char → List (List Char)) (peer : Option Peer)
    (service : List Char) (writeAccess : Bool) : Option Status :=
  match extractCN peer with
  | .error _ => some ⟨.unauthenticated, "no valid certificate"⟩
  | .ok cn =>
    match getRoles rolesForCN cn with
    | .error _ => some ⟨.unauthenticated, "unauthorized certificate"⟩
    | .ok roles =>
      if hasAccess roles service writeAccess then none
      else some ⟨.permissionDenied, "insufficient permissions"⟩

/-! ## The first role that decides -/

/-- What an access level says of a request: `readwrite` grants, `readonly` grants a read,
`noaccess` denies; any other level, and `readonly` asked for a write, say nothing. -/
def levelDecision (writeAccess : Bool) (level : List Char) : Option Bool :=
  if level = "readwrite".toList then some true
  else if level = "readonly".toList ∧ !writeAccess then some true
  else if level = "noaccess".toList then some false
  else none

/-- What one role says of a request for `service`: the decision of the level after
`<service>_`, when the role starts with the service. -/
def roleDecision (service : List Char) (writeAccess : Bool) (role : List Char) : Option Bool :=
  if hasPrefix role service then
    levelDecision writeAccess (trimPrefix role (service ++ "_".toList))
  else none

/-- A role `<service>_<level>` decides by its level. -/
theorem roleDecision_level (service level : List Char) (writeAccess : Bool) :
    roleDecision service writeAccess (service ++ '_' :: level) = levelDecision writeAccess level := by
  have h : service ++ '_' :: level = (service ++ "_".toList) ++ level := by simp
  rw [roleDecision, hasPrefix_append, if_pos rfl, h, trimPrefix_append]

/-- The loop returns the decision of the first role that decides, and denies when none
does. -/
theorem hasAccess_eq_findSome (roles : List (List Char)) (service : List Char)
    (writeAccess : Bool) :
    hasAccess roles service writeAccess =
      (roles.findSome? (roleDecision service writeAccess)).getD false := by
  induction roles with
  | nil => rfl
  | cons role roles ih =>
    rw [List.findSome?_cons, hasAccess, roleDecision]
    by_cases hp : hasPrefix role service
    · simp only [if_pos hp, levelDecision]
      split_ifs <;> simp [ih]
    · simp [hp, ih]

/-- Where no role denies, `hasAccess` grants exactly when some role grants. -/
theorem hasAccess_of_no_deny {roles : List (List Char)} {service : List Char}
    {writeAccess : Bool} (hno : ∀ r ∈ roles, roleDecision service writeAccess r ≠ some false) :
    hasAccess roles service writeAccess =
      decide (∃ r ∈ roles, roleDecision service writeAccess r = some true) := by
  rw [hasAccess_eq_findSome]
  induction roles with
  | nil => simp
  | cons role roles ih =>
    rw [List.findSome?_cons]
    have hrest := ih fun r hr => hno r (List.mem_cons_of_mem _ hr)
    cases hd : roleDecision service writeAccess role with
    | none => simp [hd, hrest]
    | some b =>
      cases b
      · exact absurd hd (hno role (List.mem_cons_self _ _))
      · simp [hd]

/-- **Without a role that denies, the order of the roles does not matter.** -/
theorem hasAccess_perm_of_no_deny {roles roles' : List (List Char)} {service : List Char}
    {writeAccess : Bool} (hp : roles.Perm roles')
    (hno : ∀ r ∈ roles, roleDecision service writeAccess r ≠ some false) :
    hasAccess roles service writeAccess = hasAccess roles' service writeAccess := by
  rw [hasAccess_of_no_deny hno, hasAccess_of_no_deny fun r hr => hno r (hp.mem_iff.mpr hr)]
  simp only [hp.mem_iff]

/-- **`hasAccess` depends on the order of the roles.** For every service and access mode,
the roles `<service>_readwrite` and `<service>_noaccess` grant access in that order and
deny it in the other, a permutation of the same list. -/
theorem hasAccess_order_dependent (service : List Char) (writeAccess : Bool) :
    hasAccess [service ++ "_readwrite".toList, service ++ "_noaccess".toList] service
        writeAccess = true ∧
      hasAccess [service ++ "_noaccess".toList, service ++ "_readwrite".toList] service
        writeAccess = false ∧
      [service ++ "_readwrite".toList, service ++ "_noaccess".toList].Perm
        [service ++ "_noaccess".toList, service ++ "_readwrite".toList] := by
  have hg : roleDecision service writeAccess (service ++ "_readwrite".toList) = some true := by
    rw [show "_readwrite".toList = '_' :: "readwrite".toList from rfl, roleDecision_level,
      levelDecision, if_pos rfl]
  have hd : roleDecision service writeAccess (service ++ "_noaccess".toList) = some false := by
    rw [show "_noaccess".toList = '_' :: "noaccess".toList from rfl, roleDecision_level,
      levelDecision, if_neg (by decide), if_neg fun h => absurd h.1 (by decide), if_pos rfl]
  refine ⟨?_, ?_, .swap _ _ _⟩ <;> simp only [hasAccess_eq_findSome, List.findSome?_cons, hg, hd] <;> rfl

/-- Where no role grants, `hasAccess` denies. -/
theorem hasAccess_of_no_grant {roles : List (List Char)} {service : List Char}
    {writeAccess : Bool} (hno : ∀ r ∈ roles, roleDecision service writeAccess r ≠ some true) :
    hasAccess roles service writeAccess = false := by
  rw [hasAccess_eq_findSome]
  cases h : roles.findSome? (roleDecision service writeAccess) with
  | none => rfl
  | some b =>
    obtain ⟨r, hr, hd⟩ := List.exists_of_findSome?_eq_some h
    cases b
    · rfl
    · exact absurd hd (hno r hr)

/-- **The order of the roles matters exactly when they disagree.** For every role list,
service and access mode, `hasAccess` gives every reordering of the roles the same decision
if and only if the list does not hold both a role that grants the request and a role that
denies it. Where it holds both, putting either first decides. -/
theorem hasAccess_perm_invariant_iff (roles : List (List Char)) (service : List Char)
    (writeAccess : Bool) :
    (∀ roles', roles.Perm roles' →
        hasAccess roles' service writeAccess = hasAccess roles service writeAccess) ↔
      ¬((∃ r ∈ roles, roleDecision service writeAccess r = some true) ∧
        ∃ r ∈ roles, roleDecision service writeAccess r = some false) := by
  constructor
  · rintro hinv ⟨⟨rg, hrg, hg⟩, rd, hrd, hd⟩
    -- move the granting role, or the denying one, to the front
    have hne : rd ≠ rg := fun h => by rw [h, hg] at hd; cases hd
    have hpg₁ := List.perm_cons_erase hrg
    have hpg := hpg₁.trans
      ((List.perm_cons_erase ((List.mem_cons.mp (hpg₁.subset hrd)).resolve_left hne)).cons rg)
    have h1 := hinv _ hpg
    have h2 := hinv _ (hpg.trans (.swap _ _ _))
    simp only [hasAccess_eq_findSome, List.findSome?_cons, hg, hd, Option.getD_some] at h1 h2
    exact Bool.noConfusion (h1.trans h2.symm)
  · intro hnot roles' hp
    by_cases hden : ∃ r ∈ roles, roleDecision service writeAccess r = some false
    · have hng : ∀ r ∈ roles, roleDecision service writeAccess r ≠ some true :=
        fun r hr h => hnot ⟨⟨r, hr, h⟩, hden⟩
      rw [hasAccess_of_no_grant hng, hasAccess_of_no_grant fun r hr => hng r (hp.mem_iff.mpr hr)]
    · push_neg at hden
      exact (hasAccess_perm_of_no_deny hp hden).symm

/-! ## Reads and writes -/

/-- A level that decides a write decides a read the same way. -/
theorem levelDecision_read_of_write {level : List Char} {b : Bool}
    (h : levelDecision true level = some b) : levelDecision false level = some b := by
  unfold levelDecision at h ⊢
  by_cases h₁ : level = "readwrite".toList
  · rwa [if_pos h₁] at h ⊢
  · rw [if_neg h₁, if_neg (by simp)] at h
    rw [if_neg h₁]
    by_cases h₃ : level = "noaccess".toList
    · rw [if_pos h₃] at h
      rwa [if_neg (by rw [h₃]; decide), if_pos h₃]
    · rw [if_neg h₃] at h
      cases h

/-- A level that denies a read is `noaccess`, which denies a write too. -/
theorem levelDecision_write_of_read_deny {level : List Char}
    (h : levelDecision false level = some false) : levelDecision true level = some false := by
  unfold levelDecision at h ⊢
  by_cases h₁ : level = "readwrite".toList
  · rw [if_pos h₁] at h
    cases h
  · rw [if_neg h₁] at h ⊢
    by_cases h₂ : level = "readonly".toList
    · rw [if_pos ⟨h₂, rfl⟩] at h
      cases h
    · rw [if_neg fun h => h₂ h.1] at h
      rwa [if_neg (by simp)]

theorem roleDecision_read_of_write {service role : List Char} {b : Bool}
    (h : roleDecision service true role = some b) : roleDecision service false role = some b := by
  unfold roleDecision at h ⊢
  split_ifs at h ⊢
  exact levelDecision_read_of_write h

theorem roleDecision_write_of_read_deny {service role : List Char}
    (h : roleDecision service false role = some false) :
    roleDecision service true role = some false := by
  unfold roleDecision at h ⊢
  split_ifs at h ⊢
  exact levelDecision_write_of_read_deny h

/-- **Whoever may write may read.** For every role list and service, when the first role
that decides a write grants it, the first role that decides a read grants it too: a
`readonly` role before it can only grant, and no role before it denies. -/
theorem hasAccess_read_of_write {roles : List (List Char)} {service : List Char}
    (h : hasAccess roles service true = true) : hasAccess roles service false = true := by
  rw [hasAccess_eq_findSome] at h ⊢
  induction roles with
  | nil => simp at h
  | cons role roles ih =>
    rw [List.findSome?_cons] at h ⊢
    cases hw : roleDecision service true role with
    | some b => simpa [hw, roleDecision_read_of_write hw] using h
    | none =>
      cases hr : roleDecision service false role with
      | none => simpa [hw, hr] using ih (by simpa [hw] using h)
      | some b =>
        cases b
        · simp [roleDecision_write_of_read_deny hr] at hw
        · rfl

/-! ## Roles of other services -/

/-- A role that decides for a service no level word starts with is `<service>_…`. -/
theorem hasPrefix_of_roleDecision {service role : List Char} {w b : Bool}
    (hs : ∀ level ∈ ["readwrite".toList, "readonly".toList, "noaccess".toList],
      hasPrefix level service = false)
    (h : roleDecision service w role = some b) : hasPrefix role (service ++ "_".toList) = true := by
  unfold roleDecision at h
  split_ifs at h with hp
  by_contra hu
  rw [trimPrefix, if_neg hu, levelDecision] at h
  split_ifs at h with h₁ h₂ h₃
  · exact absurd (h₁ ▸ hp) (by simp [hs])
  · exact absurd (h₂.1 ▸ hp) (by simp [hs])
  · exact absurd (h₃ ▸ hp) (by simp [hs])

/-- `findSome?` passes over what `p` drops when only elements `p` keeps decide. -/
theorem findSome?_filter {α β : Type} {f : α → Option β} {p : α → Bool}
    (hp : ∀ a b, f a = some b → p a = true) (l : List α) :
    l.findSome? f = (l.filter p).findSome? f := by
  induction l with
  | nil => rfl
  | cons a l ih =>
    by_cases hpa : p a = true
    · rw [List.filter_cons_of_pos hpa, List.findSome?_cons, List.findSome?_cons, ih]
    · have hfa : f a = none := Option.eq_none_iff_forall_not_mem.mpr fun b hb => hpa (hp a b hb)
      rw [List.filter_cons_of_neg hpa, List.findSome?_cons, hfa, ih]

/-- **Roles of other services never matter.** For every service no level word starts
with (`gnoi`, `gnmi` and `unknown`, the services `parseMethod` gives, among them),
`hasAccess` decides as it does on the roles that start with `<service>_` alone: neither
`gnmi_noaccess` nor `gnoi2_readwrite` grants or denies a gNOI request. -/
theorem hasAccess_filter_service {service : List Char}
    (hs : ∀ level ∈ ["readwrite".toList, "readonly".toList, "noaccess".toList],
      hasPrefix level service = false)
    (roles : List (List Char)) (writeAccess : Bool) :
    hasAccess roles service writeAccess =
      hasAccess (roles.filter fun r => hasPrefix r (service ++ "_".toList)) service writeAccess := by
  rw [hasAccess_eq_findSome, hasAccess_eq_findSome,
    findSome?_filter (fun r _ h => hasPrefix_of_roleDecision hs h)]

/-- A gNOI request of a caller with the roles `gnmi_noaccess` and `gnoi_readonly` is
decided by `gnoi_readonly` alone. -/
theorem hasAccess_filter_service_gnoi :
    (∀ level ∈ ["readwrite".toList, "readonly".toList, "noaccess".toList],
        hasPrefix level "gnoi".toList = false) ∧
      hasAccess ["gnmi_noaccess".toList, "gnoi_readonly".toList] "gnoi".toList false =
        hasAccess (["gnmi_noaccess".toList, "gnoi_readonly".toList].filter
          fun r => hasPrefix r ("gnoi".toList ++ "_".toList)) "gnoi".toList false :=
  ⟨by decide, hasAccess_filter_service (by decide) _ _⟩

/-! ## `CheckAccess` -/

/-- `CheckAccess` lets a request through exactly when the certificate's common name has
roles in ConfigDB and `hasAccess` grants on them; otherwise it refuses with
`Unauthenticated` or `PermissionDenied`. -/
theorem checkAccess_eq_none_iff (rolesForCN : List Char → List (List Char))
    (peer : Option Peer) (service : List Char) (writeAccess : Bool) :
    (checkAccess rolesForCN peer service writeAccess = none ↔
      ∃ cn, extractCN peer = .ok cn ∧ rolesForCN cn ≠ [] ∧
        hasAccess (rolesForCN cn) service writeAccess = true) ∧
    ∀ st, checkAccess rolesForCN peer service writeAccess = some st →
      st.code = .unauthenticated ∨ st = ⟨.permissionDenied, "insufficient permissions"⟩ := by
  unfold checkAccess
  rcases extractCN peer with err | cn
  · simp
  · simp only [getRoles]
    by_cases hr : rolesForCN cn = []
    · simp [hr]
    · by_cases ha : hasAccess (rolesForCN cn) service writeAccess <;> simp [hr, ha]

/-- What `CheckAccess` is for: the caller's certificate names a common name that has
roles, and the first of those roles that decides for the service grants. -/
def Grants (rolesForCN : List Char → List (List Char)) (peer : Option Peer)
    (service : List Char) (writeAccess : Bool) : Prop :=
  ∃ cn, extractCN peer = .ok cn ∧ rolesForCN cn ≠ [] ∧
    (rolesForCN cn).findSome? (roleDecision service writeAccess) = some true

/-- `CheckAccess` lets a request through exactly when its caller is granted access. -/
theorem checkAccess_eq_none_iff_grants (rolesForCN : List Char → List (List Char))
    (peer : Option Peer) (service : List Char) (writeAccess : Bool) :
    checkAccess rolesForCN peer service writeAccess = none ↔
      Grants rolesForCN peer service writeAccess := by
  rw [(checkAccess_eq_none_iff rolesForCN peer service writeAccess).1, Grants]
  simp only [hasAccess_eq_findSome, Option.getD_eq_iff]
  simp

/-- A caller none of whose roles starts with `<service>_` is granted nothing of a service
no level word starts with. -/
theorem not_grants_of_no_service_roles (rolesForCN : List Char → List (List Char))
    (peer : Option Peer) {service : List Char}
    (hs : ∀ level ∈ ["readwrite".toList, "readonly".toList, "noaccess".toList],
      hasPrefix level service = false)
    (hno : ∀ cn, extractCN peer = .ok cn →
      ∀ r ∈ rolesForCN cn, hasPrefix r (service ++ "_".toList) = false)
    (writeAccess : Bool) : ¬Grants rolesForCN peer service writeAccess := by
  rintro ⟨cn, hcn, -, hg⟩
  rw [findSome?_filter (fun r _ h => hasPrefix_of_roleDecision hs h),
    List.filter_eq_nil_iff.mpr fun r hr => by rw [hno cn hcn r hr]; decide] at hg
  cases hg

/-- **`CheckAccess` lets a read through wherever it lets a write through**, for every
caller, role table and service. -/
theorem checkAccess_read_of_write (rolesForCN : List Char → List (List Char))
    (peer : Option Peer) (service : List Char)
    (h : checkAccess rolesForCN peer service true = none) :
    checkAccess rolesForCN peer service false = none := by
  obtain ⟨cn, hcn, hne, ha⟩ := (checkAccess_eq_none_iff rolesForCN peer service true).1.mp h
  exact (checkAccess_eq_none_iff rolesForCN peer service false).1.mpr
    ⟨cn, hcn, hne, hasAccess_read_of_write ha⟩

/-- A caller whose certificate names `admin` with the role `gnoi_readonly` and then
`gnoi_readwrite` may write gNOI, and so may read it. -/
theorem checkAccess_read_of_write_admin :
    checkAccess (fun _ => ["gnoi_readonly".toList, "gnoi_readwrite".toList])
        (some ⟨some [["admin".toList]]⟩) "gnoi".toList true = none ∧
      checkAccess (fun _ => ["gnoi_readonly".toList, "gnoi_readwrite".toList])
        (some ⟨some [["admin".toList]]⟩) "gnoi".toList false = none :=
  ⟨by decide, checkAccess_read_of_write _ _ _ (by decide)⟩

end SonicGnmi.Auth
