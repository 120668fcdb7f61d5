import SonicGnmi.Auth.ParseMethod
import SonicGnmi.Auth.CertAuthorizer
import SonicGnmi.File.Prog

/-!
# `AuthMiddleware` and `StreamAuthMiddleware`

Both interceptors read the service and the access a call needs off its full method name
with `parseMethod`, pass a call of a gRPC reflection or health method straight to its
handler, and otherwise call the handler only when `CheckAccess` returns no error, which
they return in its place. A handler is the program of calls it makes (`HandlePut` for a
`Put` stream, `HandleFileRemove` for a `Remove`), so a refused call makes no call at all
and leaves every state as it was. The two source versions of the interceptors differ
only in the `parseMethod` they call, a parameter here.

* `middleware_mediates` — for either `parseMethod` and the certificate authorizer, a
  call runs as its handler exactly when it is a reflection or health call or its caller
  is granted the service and access `parseMethod` reads off its name; every other call
  is refused with `Unauthenticated` or `PermissionDenied`;
* `middleware_file_methods` — the File service under the two versions: the table-driven
  middleware lets every File method through to any caller that may read gNOI, a
  `gnoi_readonly` role enough to upload or remove files, and the switch-based one
  refuses every File method to every caller without an `unknown_` role.
-/

namespace SonicGnmi.Auth

open SonicGnmi.File (Status Prog)

/-- The body both interceptors share: a call whose service `parseMethod` leaves empty
goes to the handler, any other only when `checkAccess` returns no error. -/
def intercept (parseMethod : List Char → String × Bool)
    (checkAccess : List Char → Bool → Option Status) (fullMethod : List Char) {α : Type}
    (handler : Prog (Except Status α)) : Prog (Except Status α) :=
  let (service, writeAccess) := parseMethod fullMethod
  if service = "" then handler
  else
    match checkAccess service.toList writeAccess with
    | some err => .ret (.error err)
    | none => handler

/-- `AuthMiddleware(auth)` on a unary call of `fullMethod`: `checkAccess` is
`auth.CheckAccess` on the call's context, and a refusal returns `nil` with its error. -/
def authMiddleware (parseMethod : List Char → String × Bool)
    (checkAccess : List Char → Bool → Option Status) (fullMethod : List Char) {α : Type}
    (handler : Prog (Except Status α)) : Prog (Except Status α) :=
  intercept parseMethod checkAccess fullMethod handler

/-- `StreamAuthMiddleware(auth)` on a stream of `fullMethod`: `checkAccess` is
`auth.CheckAccess` on the stream's context `ss.Context()`, and a refusal returns its
error. -/
def streamAuthMiddleware (parseMethod : List Char → String × Bool)
    (checkAccess : List Char → Bool → Option Status) (fullMethod : List Char) {α : Type}
    (handler : Prog (Except Status α)) : Prog (Except Status α) :=
  intercept parseMethod checkAccess fullMethod handler

/-- A wrapped handler mediated by `allowed`: it runs as the handler itself when `allowed`
holds, and otherwise returns, without a call, a refusal with `Unauthenticated` or
`PermissionDenied`. -/
def Mediated {α : Type} (allowed : Prop) (wrapped handler : Prog (Except Status α)) : Prop :=
  (allowed → wrapped = handler) ∧
    (¬allowed → ∃ err, wrapped = .ret (.error err) ∧
      (err.code = .unauthenticated ∨ err = ⟨.permissionDenied, "insufficient permissions"⟩))

section Mediation

variable (rolesForCN : List Char → List (List Char)) (peer : Option Peer)

/-- Where `parseMethod` names a service, the interceptor is mediated by the certificate
authorizer's grant of that service and access. -/
theorem intercept_of_service {parseMethod : List Char → String × Bool} {fullMethod : List Char}
    (hs : (parseMethod fullMethod).1 ≠ "") {α : Type} (handler : Prog (Except Status α)) :
    Mediated (Grants rolesForCN peer (parseMethod fullMethod).1.toList (parseMethod fullMethod).2)
      (intercept parseMethod (checkAccess rolesForCN peer) fullMethod handler) handler := by
  rcases hp : parseMethod fullMethod with ⟨service, writeAccess⟩
  rw [hp] at hs
  simp only [intercept, hp, if_neg hs]
  refine ⟨fun hg => ?_, fun hg => ?_⟩
  · rw [(checkAccess_eq_none_iff_grants rolesForCN peer _ _).mpr hg]
  · cases hc : checkAccess rolesForCN peer service.toList writeAccess with
    | none => exact absurd ((checkAccess_eq_none_iff_grants rolesForCN peer _ _).mp hc) hg
    | some err =>
      exact ⟨err, rfl, (checkAccess_eq_none_iff rolesForCN peer _ _).2 err hc⟩

/-- Under a `parseMethod` that skips exactly the reflection and health methods, the
interceptor is mediated by those methods and the authorizer's grant. -/
theorem intercept_mediates {parseMethod : List Char → String × Bool}
    (hp : SkipsSystemServices parseMethod) (fullMethod : List Char) {α : Type}
    (handler : Prog (Except Status α)) :
    Mediated (isSystemService fullMethod = true ∨
        Grants rolesForCN peer (parseMethod fullMethod).1.toList (parseMethod fullMethod).2)
      (intercept parseMethod (checkAccess rolesForCN peer) fullMethod handler) handler := by
  by_cases hsys : isSystemService fullMethod = true
  · have he := (hp.service_eq_empty fullMethod).mpr hsys
    refine ⟨fun _ => ?_, fun hn => absurd (.inl hsys) hn⟩
    rcases hpm : parseMethod fullMethod with ⟨service, writeAccess⟩
    rw [hpm] at he
    simp only [intercept, hpm, if_pos he]
  · have hs := (hp.service_eq_empty fullMethod).not.mpr hsys
    simpa only [hsys, Bool.false_eq_true, false_or] using
      intercept_of_service rolesForCN peer hs handler

/-- **The middleware mediates every call.** For a `parseMethod` that skips exactly the
reflection and health methods (both versions of the source do), every caller, role table
and method name: the unary and the stream interceptor run a call as its handler when the
method is a reflection or health method or the caller is granted the service and access
`parseMethod` reads off its name, and refuse it with `Unauthenticated` or
`PermissionDenied`, making no call, otherwise. -/
theorem middleware_mediates {parseMethod : List Char → String × Bool}
    (hp : SkipsSystemServices parseMethod) (fullMethod : List Char) {α : Type}
    (handler : Prog (Except Status α)) :
    Mediated (isSystemService fullMethod = true ∨
        Grants rolesForCN peer (parseMethod fullMethod).1.toList (parseMethod fullMethod).2)
      (authMiddleware parseMethod (checkAccess rolesForCN peer) fullMethod handler) handler ∧
    Mediated (isSystemService fullMethod = true ∨
        Grants rolesForCN peer (parseMethod fullMethod).1.toList (parseMethod fullMethod).2)
      (streamAuthMiddleware parseMethod (checkAccess rolesForCN peer) fullMethod handler)
      handler :=
  ⟨intercept_mediates rolesForCN peer hp fullMethod handler,
    intercept_mediates rolesForCN peer hp fullMethod handler⟩

/-- A health check goes through both versions of the middleware to its handler with no
peer at all. -/
theorem middleware_mediates_health :
    SkipsSystemServices Table.parseMethod ∧ SkipsSystemServices Switch.parseMethod ∧
      authMiddleware Table.parseMethod (checkAccess (fun _ => []) none)
        "/grpc.health.v1.Health/Check".toList (.ret (.ok ()) : Prog (Except Status Unit)) =
        .ret (.ok ()) ∧
      streamAuthMiddleware Switch.parseMethod (checkAccess (fun _ => []) none)
        "/grpc.health.v1.Health/Check".toList (.ret (.ok ()) : Prog (Except Status Unit)) =
        .ret (.ok ()) :=
  ⟨Table.parseMethod_skips, Switch.parseMethod_skips,
    (middleware_mediates (fun _ => []) none Table.parseMethod_skips _ _).1.1 (.inl (by decide)),
    (middleware_mediates (fun _ => []) none Switch.parseMethod_skips _ _).2.1 (.inl (by decide))⟩

/-- **The File service under the two middlewares.** For every File method name (`Put`,
`Remove` and `TransferToRemote` among them) that is not a reflection or health name, and
every caller: the table-driven interceptors mediate it by the caller's grant of a gNOI
read, so a `gnoi_readonly` role lets a caller upload and remove files; the switch-based
ones refuse it to every caller none of whose own roles starts with `unknown_`. -/
theorem middleware_file_methods {M : List Char} (hM : '/' ∉ M)
    (hsys : isSystemService ('/' :: "gnoi.file.File".toList ++ '/' :: M) = false)
    {α : Type} (handler : Prog (Except Status α)) :
    Mediated (Grants rolesForCN peer "gnoi".toList false)
        (authMiddleware Table.parseMethod (checkAccess rolesForCN peer)
          ('/' :: "gnoi.file.File".toList ++ '/' :: M) handler) handler ∧
      Mediated (Grants rolesForCN peer "gnoi".toList false)
        (streamAuthMiddleware Table.parseMethod (checkAccess rolesForCN peer)
          ('/' :: "gnoi.file.File".toList ++ '/' :: M) handler) handler ∧
      ((∀ cn, extractCN peer = .ok cn → ∀ r ∈ rolesForCN cn,
          hasPrefix r "unknown_".toList = false) →
        (∃ err, authMiddleware Switch.parseMethod (checkAccess rolesForCN peer)
          ('/' :: "gnoi.file.File".toList ++ '/' :: M) handler = .ret (.error err)) ∧
        ∃ err, streamAuthMiddleware Switch.parseMethod (checkAccess rolesForCN peer)
          ('/' :: "gnoi.file.File".toList ++ '/' :: M) handler = .ret (.error err)) := by
  have ht := intercept_of_service rolesForCN peer
    (show (Table.parseMethod ('/' :: "gnoi.file.File".toList ++ '/' :: M)).1 ≠ "" by
      rw [table_parseMethod_gnoi_file hM hsys]; decide) handler
  rw [table_parseMethod_gnoi_file hM hsys] at ht
  refine ⟨ht, ht, fun hno => ?_⟩
  have hsw := intercept_of_service rolesForCN peer
    (show (Switch.parseMethod ('/' :: "gnoi.file.File".toList ++ '/' :: M)).1 ≠ "" by
      rw [switch_parseMethod_gnoi_file hM hsys]; decide) handler
  rw [switch_parseMethod_gnoi_file hM hsys] at hsw
  obtain ⟨err, he, -⟩ := hsw.2 (not_grants_of_no_service_roles rolesForCN peer (by decide) hno false)
  exact ⟨⟨err, he⟩, ⟨err, he⟩⟩

/-- A `Put` stream of a caller whose certificate names `ops`, with the one role
`gnoi_readonly`, goes through the table-driven stream interceptor to `HandlePut`, and the
switch-based one refuses it. -/
theorem middleware_file_methods_readonly_put :
    '/' ∉ "Put".toList ∧
      isSystemService ('/' :: "gnoi.file.File".toList ++ '/' :: "Put".toList) = false ∧
      streamAuthMiddleware Table.parseMethod
        (checkAccess (fun _ => ["gnoi_readonly".toList]) (some ⟨some [["ops".toList]]⟩))
        ('/' :: "gnoi.file.File".toList ++ '/' :: "Put".toList)
        (.ret (.ok ()) : Prog (Except Status Unit)) = .ret (.ok ()) ∧
      ∃ err, streamAuthMiddleware Switch.parseMethod
        (checkAccess (fun _ => ["gnoi_readonly".toList]) (some ⟨some [["ops".toList]]⟩))
        ('/' :: "gnoi.file.File".toList ++ '/' :: "Put".toList)
        (.ret (.ok ()) : Prog (Except Status Unit)) = .ret (.error err) :=
  have h := middleware_file_methods (fun _ => ["gnoi_readonly".toList])
    (some ⟨some [["ops".toList]]⟩) (by decide) (by decide) (.ret (.ok ()) : Prog (Except Status Unit))
  ⟨by decide, by decide, h.2.1.1 ⟨"ops".toList, rfl, by decide, by decide⟩,
    (h.2.2 fun _ _ => by decide).2⟩

end Mediation

end SonicGnmi.Auth
