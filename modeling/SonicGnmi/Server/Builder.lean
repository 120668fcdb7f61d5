import Mathlib.Data.List.Basic

/-!
# `ServerBuilder`

A program configures the server with a chain of calls on a `ServerBuilder`: the address,
the root filesystem, the TLS settings, and the services to enable. `Build` resolves each
setting, falling back on `config.Global` where the builder left it empty or unset, creates
the server with `NewServerWithTLS`, and registers the enabled services it knows.

A chain of calls is modelled as the list of the calls made on `NewServerBuilder()`. Each
call sets one field, and each field reads as the calls that set it decide:

* `chain_addr`, `chain_rootFS`, `chain_tlsConfig` — the last call that set the field
  wins;
* `chain_services` — a name is enabled once some call names it;
* `build_registers_enabled` — `Build` registers exactly the known services some call
  enabled, in a fixed order, whatever the order of the calls;
* `build_args` — what `Build` passes to `NewServerWithTLS`: the last TLS call's settings,
  the global ones without one, and the last address, the global one when it is empty.
-/

namespace SonicGnmi.Server

/-- `tlsConfig`: the TLS settings a `With…TLS` call stores. -/
structure TlsConfig where
  enabled : Bool
  mtlsEnabled : Bool
  certFile : List Char
  keyFile : List Char
  caCertFile : List Char
  deriving DecidableEq, Repr

/-- `ServerBuilder`: the `services` map reads `true` for a name once it is enabled and
`false` for a missing name; `tlsConfig` is `nil` until a TLS call. -/
structure ServerBuilder where
  addr : List Char
  rootFS : List Char
  services : List Char → Bool
  tlsConfig : Option TlsConfig

/-- `NewServerBuilder()`. -/
def newServerBuilder : ServerBuilder := ⟨[], [], fun _ => false, none⟩

namespace ServerBuilder

/-- `WithAddress(addr)`. -/
def withAddress (b : ServerBuilder) (addr : List Char) : ServerBuilder := { b with addr := addr }

/-- `WithRootFS(rootFS)`. -/
def withRootFS (b : ServerBuilder) (rootFS : List Char) : ServerBuilder :=
  { b with rootFS := rootFS }

/-- `WithTLS(certFile, keyFile)`. -/
def withTLS (b : ServerBuilder) (certFile keyFile : List Char) : ServerBuilder :=
  { b with tlsConfig := some ⟨true, false, certFile, keyFile, []⟩ }

/-- `WithMTLS(certFile, keyFile, caCertFile)`. -/
def withMTLS (b : ServerBuilder) (certFile keyFile caCertFile : List Char) : ServerBuilder :=
  { b with tlsConfig := some ⟨true, true, certFile, keyFile, caCertFile⟩ }

/-- `WithoutTLS()`. -/
def withoutTLS (b : ServerBuilder) : ServerBuilder :=
  { b with tlsConfig := some ⟨false, false, [], [], []⟩ }

/-- `b.services[service] = true`, what every `Enable` call does. -/
def enable (b : ServerBuilder) (service : List Char) : ServerBuilder :=
  { b with services := fun s => decide (s = service) || b.services s }

/-- `EnableGNOISystem()`. -/
def enableGNOISystem (b : ServerBuilder) : ServerBuilder := b.enable "gnoi.system".toList

/-- `EnableGNMI()`. -/
def enableGNMI (b : ServerBuilder) : ServerBuilder := b.enable "gnmi".toList

/-- `EnableGNOIFile()`. -/
def enableGNOIFile (b : ServerBuilder) : ServerBuilder := b.enable "gnoi.file".toList

/-- `EnableServices(services)`: the loop enabling each name. -/
def enableServices (b : ServerBuilder) (services : List (List Char)) : ServerBuilder :=
  services.foldl enable b

end ServerBuilder

/-- One call on the builder. -/
inductive BuilderCall where
  | withAddress (addr : List Char)
  | withRootFS (rootFS : List Char)
  | withTLS (certFile keyFile : List Char)
  | withMTLS (certFile keyFile caCertFile : List Char)
  | withoutTLS
  | enableGNOISystem
  | enableGNMI
  | enableGNOIFile
  | enableServices (services : List (List Char))
  deriving DecidableEq, Repr

/-- The builder after a call. -/
def BuilderCall.apply : BuilderCall → ServerBuilder → ServerBuilder
  | .withAddress addr, b => b.withAddress addr
  | .withRootFS rootFS, b => b.withRootFS rootFS
  | .withTLS certFile keyFile, b => b.withTLS certFile keyFile
  | .withMTLS certFile keyFile caCertFile, b => b.withMTLS certFile keyFile caCertFile
  | .withoutTLS, b => b.withoutTLS
  | .enableGNOISystem, b => b.enableGNOISystem
  | .enableGNMI, b => b.enableGNMI
  | .enableGNOIFile, b => b.enableGNOIFile
  | .enableServices services, b => b.enableServices services

/-- The builder a chain of calls on `NewServerBuilder()` leaves. -/
def chain (calls : List BuilderCall) : ServerBuilder :=
  calls.foldl (fun b c => c.apply b) newServerBuilder

/-- The fields of `config.Global` that `Build` falls back on. Modelled from the spec: the
config package is not under the sources. -/
structure GlobalConfig where
  addr : List Char
  rootFS : List Char
  tlsEnabled : Bool
  mtlsEnabled : Bool
  tlsCertFile : List Char
  tlsKeyFile : List Char
  tlsCACertFile : List Char

/-- The arguments `Build` passes to `NewServerWithTLS`. -/
structure ServerArgs where
  addr : List Char
  tlsEnabled : Bool
  certFile : List Char
  keyFile : List Char
  mtlsEnabled : Bool
  caCertFile : List Char
  deriving DecidableEq, Repr

/-- `registerServices(srv, rootFS)`: the services registered on the server, in order,
each with the root filesystem its server is created with. -/
def registerServices (b : ServerBuilder) (rootFS : List Char) : List (List Char × List Char) :=
  (if b.services "gnoi.system".toList then [("gnoi.system".toList, rootFS)] else []) ++
    (if b.services "gnmi".toList then [("gnmi".toList, rootFS)] else []) ++
    (if b.services "gnoi.file".toList then [("gnoi.file".toList, rootFS)] else [])

/-- `Build()`: the arguments passed to `NewServerWithTLS` and the services registered on
the server it creates. `newServerWithTLS` is `NewServerWithTLS`, modelled from the spec:
its code is not under the sources. -/
def build {ε : Type} (global : GlobalConfig) (newServerWithTLS : ServerArgs → Except ε Unit)
    (b : ServerBuilder) : Except ε (ServerArgs × List (List Char × List Char)) :=
  let addr := if b.addr = [] then global.addr else b.addr
  let rootFS := if b.rootFS = [] then global.rootFS else b.rootFS
  let args : ServerArgs :=
    match b.tlsConfig with
    | some t => ⟨addr, t.enabled, t.certFile, t.keyFile, t.mtlsEnabled, t.caCertFile⟩
    | none => ⟨addr, global.tlsEnabled, global.tlsCertFile, global.tlsKeyFile,
        global.mtlsEnabled, global.tlsCACertFile⟩
  match newServerWithTLS args with
  | .error e => .error e
  | .ok () => .ok (args, registerServices b rootFS)

/-- The TLS settings `Build` passes. -/
def ServerArgs.tls (a : ServerArgs) : TlsConfig :=
  ⟨a.tlsEnabled, a.mtlsEnabled, a.certFile, a.keyFile, a.caCertFile⟩

/-- The TLS settings of `config.Global`. -/
def GlobalConfig.tls (g : GlobalConfig) : TlsConfig :=
  ⟨g.tlsEnabled, g.mtlsEnabled, g.tlsCertFile, g.tlsKeyFile, g.tlsCACertFile⟩

/-! ## What each call sets -/

namespace BuilderCall

/-- The address a call sets. -/
def addrSet : BuilderCall → Option (List Char)
  | .withAddress addr => some addr
  | _ => none

/-- The root filesystem a call sets. -/
def rootFSSet : BuilderCall → Option (List Char)
  | .withRootFS rootFS => some rootFS
  | _ => none

/-- The TLS settings a call chooses. -/
def tlsSet : BuilderCall → Option TlsConfig
  | .withTLS certFile keyFile => some ⟨true, false, certFile, keyFile, []⟩
  | .withMTLS certFile keyFile caCertFile => some ⟨true, true, certFile, keyFile, caCertFile⟩
  | .withoutTLS => some ⟨false, false, [], [], []⟩
  | _ => none

/-- The service names a call enables. -/
def enables : BuilderCall → List (List Char)
  | .enableGNOISystem => ["gnoi.system".toList]
  | .enableGNMI => ["gnmi".toList]
  | .enableGNOIFile => ["gnoi.file".toList]
  | .enableServices services => services
  | _ => []

end BuilderCall

/-- `EnableServices` enables each name it is given, and changes nothing else. -/
theorem enableServices_eq (services : List (List Char)) :
    ∀ b : ServerBuilder, b.enableServices services =
      { b with services := fun s => decide (s ∈ services) || b.services s } := by
  induction services with
  | nil => intro b; rfl
  | cons x xs ih =>
    intro b
    rw [ServerBuilder.enableServices, List.foldl_cons, ← ServerBuilder.enableServices, ih]
    simp only [ServerBuilder.enable, ServerBuilder.mk.injEq, true_and, and_true]
    funext s
    by_cases h₁ : s = x <;> by_cases h₂ : s ∈ xs <;> simp [h₁, h₂]

@[simp] theorem apply_addr (c : BuilderCall) (b : ServerBuilder) :
    (c.apply b).addr = c.addrSet.getD b.addr := by
  cases c <;> simp [BuilderCall.apply, BuilderCall.addrSet, enableServices_eq] <;> rfl

@[simp] theorem apply_rootFS (c : BuilderCall) (b : ServerBuilder) :
    (c.apply b).rootFS = c.rootFSSet.getD b.rootFS := by
  cases c <;> simp [BuilderCall.apply, BuilderCall.rootFSSet, enableServices_eq] <;> rfl

@[simp] theorem apply_tlsConfig (c : BuilderCall) (b : ServerBuilder) :
    (c.apply b).tlsConfig = (c.tlsSet.map some).getD b.tlsConfig := by
  cases c <;> simp [BuilderCall.apply, BuilderCall.tlsSet, enableServices_eq] <;> rfl

@[simp] theorem apply_services (c : BuilderCall) (b : ServerBuilder) (s : List Char) :
    (c.apply b).services s = (decide (s ∈ c.enables) || b.services s) := by
  cases c <;> simp [BuilderCall.apply, BuilderCall.enables, enableServices_eq] <;> rfl

/-! ## What a chain of calls leaves -/

/-- A field each call either sets or leaves alone reads, after a chain of calls, as the
last value set, or as it was when no call set it. -/
theorem foldl_lastSet {β : Type} (get : ServerBuilder → β) (set : BuilderCall → Option β)
    (hstep : ∀ (c : BuilderCall) (b : ServerBuilder), get (c.apply b) = (set c).getD (get b))
    (calls : List BuilderCall) :
    ∀ b, get (calls.foldl (fun (b : ServerBuilder) (c : BuilderCall) => c.apply b) b) =
      ((calls.filterMap set).getLast?).getD (get b) := by
  induction calls with
  | nil => intro b; rfl
  | cons c calls ih =>
    intro b
    rw [List.foldl_cons, ih, hstep, List.filterMap_cons]
    cases set c with
    | none => rfl
    | some v => rw [List.getLast?_cons, Option.getD_some]; cases (calls.filterMap set).getLast? <;> rfl

theorem chain_addr (calls : List BuilderCall) :
    (chain calls).addr = ((calls.filterMap BuilderCall.addrSet).getLast?).getD [] :=
  foldl_lastSet ServerBuilder.addr _ apply_addr calls _

theorem chain_rootFS (calls : List BuilderCall) :
    (chain calls).rootFS = ((calls.filterMap BuilderCall.rootFSSet).getLast?).getD [] :=
  foldl_lastSet ServerBuilder.rootFS _ apply_rootFS calls _

theorem chain_tlsConfig (calls : List BuilderCall) :
    (chain calls).tlsConfig = (calls.filterMap BuilderCall.tlsSet).getLast? := by
  rw [chain, foldl_lastSet ServerBuilder.tlsConfig _ apply_tlsConfig calls, ← List.map_filterMap,
    List.getLast?_map]
  cases (calls.filterMap BuilderCall.tlsSet).getLast? <;> rfl

theorem chain_services (calls : List BuilderCall) (s : List Char) :
    (chain calls).services s = decide (s ∈ calls.flatMap BuilderCall.enables) := by
  suffices h : ∀ b, (calls.foldl (fun (b : ServerBuilder) (c : BuilderCall) => c.apply b)
      b).services s =
      (decide (s ∈ calls.flatMap BuilderCall.enables) || b.services s) by
    simpa [chain, newServerBuilder] using h newServerBuilder
  induction calls with
  | nil => intro b; simp
  | cons c calls ih =>
    intro b
    rw [List.foldl_cons, ih, apply_services, List.flatMap_cons]
    by_cases h₁ : s ∈ c.enables <;> by_cases h₂ : s ∈ calls.flatMap BuilderCall.enables <;>
      simp [h₁, h₂]

/-! ## `Build` -/

/-- **`Build` registers the known services some call enabled.** For every chain of calls,
when `NewServerWithTLS` succeeds, `Build` registers, in the order System, gNMI, File,
exactly those of `gnoi.system`, `gnmi` and `gnoi.file` that some call enabled, each with
the root filesystem of the last `WithRootFS` call, or the global one when that is empty
or there was none: any other name, `gnoi.containerz` among them, registers nothing, and
the order of the calls does not change which services are registered. -/
theorem build_registers_enabled {ε : Type} (global : GlobalConfig)
    (newServerWithTLS : ServerArgs → Except ε Unit) (calls : List BuilderCall)
    {args : ServerArgs} {regs : List (List Char × List Char)}
    (h : build global newServerWithTLS (chain calls) = .ok (args, regs)) :
    regs = (["gnoi.system".toList, "gnmi".toList, "gnoi.file".toList].filter
        fun s => s ∈ calls.flatMap BuilderCall.enables).map fun s =>
      (s, if (calls.filterMap BuilderCall.rootFSSet).getLast?.getD [] = [] then global.rootFS
        else (calls.filterMap BuilderCall.rootFSSet).getLast?.getD []) := by
  simp only [build] at h
  split at h
  · cases h
  · obtain ⟨-, rfl⟩ := Prod.mk.inj (Except.ok.inj h)
    simp only [registerServices, chain_services, chain_rootFS, List.filter_cons,
      List.filter_nil]
    by_cases h₁ : "gnoi.system".toList ∈ calls.flatMap BuilderCall.enables <;>
      by_cases h₂ : "gnmi".toList ∈ calls.flatMap BuilderCall.enables <;>
      by_cases h₃ : "gnoi.file".toList ∈ calls.flatMap BuilderCall.enables <;>
      simp only [h₁, h₂, h₃] <;> simp

/-- `EnableServices` with `gnoi.containerz` and `gnoi.file`, then `EnableGNOISystem` and
`WithRootFS("/")`: the System and File services are registered, in that order, on `/`. -/
theorem build_registers_enabled_containerz :
    build ⟨":8080".toList, "/mnt/host".toList, false, false, [], [], []⟩
        (fun _ => (.ok () : Except String Unit))
        (chain [.enableServices ["gnoi.containerz".toList, "gnoi.file".toList],
          .enableGNOISystem, .withRootFS "/".toList]) =
        .ok (⟨":8080".toList, false, [], [], false, []⟩,
          [("gnoi.system".toList, "/".toList), ("gnoi.file".toList, "/".toList)]) ∧
      [("gnoi.system".toList, "/".toList), ("gnoi.file".toList, "/".toList)] =
        (["gnoi.system".toList, "gnmi".toList, "gnoi.file".toList].filter fun s =>
          s ∈ [BuilderCall.enableServices ["gnoi.containerz".toList, "gnoi.file".toList],
            .enableGNOISystem, .withRootFS "/".toList].flatMap BuilderCall.enables).map fun s =>
          (s, if ([BuilderCall.enableServices ["gnoi.containerz".toList, "gnoi.file".toList],
              .enableGNOISystem, .withRootFS "/".toList].filterMap
                BuilderCall.rootFSSet).getLast?.getD [] = [] then "/mnt/host".toList
            else ([BuilderCall.enableServices ["gnoi.containerz".toList, "gnoi.file".toList],
              .enableGNOISystem, .withRootFS "/".toList].filterMap
                BuilderCall.rootFSSet).getLast?.getD []) :=
  (fun h => ⟨h, build_registers_enabled _ _ _ h⟩) rfl

/-- **`Build` passes the settings of the last calls.** For every chain of calls, `Build`
creates the server with the TLS settings of the last `WithTLS`, `WithMTLS` or `WithoutTLS`
call, or those of `config.Global` when there was none, so `WithTLS` after `WithMTLS`
turns mutual TLS off and drops its CA file and `WithoutTLS` turns TLS off whatever the
global setting; and with the address of the last `WithAddress` call, or the global one
when that address is empty or there was none. -/
theorem build_args {ε : Type} (global : GlobalConfig)
    (newServerWithTLS : ServerArgs → Except ε Unit) (calls : List BuilderCall)
    {args : ServerArgs} {regs : List (List Char × List Char)}
    (h : build global newServerWithTLS (chain calls) = .ok (args, regs)) :
    args.tls = ((calls.filterMap BuilderCall.tlsSet).getLast?).getD global.tls ∧
      args.addr = if (calls.filterMap BuilderCall.addrSet).getLast?.getD [] = [] then global.addr
        else (calls.filterMap BuilderCall.addrSet).getLast?.getD [] := by
  simp only [build] at h
  split at h
  · cases h
  · obtain ⟨rfl, -⟩ := Prod.mk.inj (Except.ok.inj h)
    rw [← chain_tlsConfig, ← chain_addr]
    cases (chain calls).tlsConfig <;> exact ⟨rfl, rfl⟩

/-- `WithMTLS`, then `WithTLS`, `WithAddress(":50055")` and `WithAddress("")`: the server
is created with plain TLS, no CA file, and the global address. -/
theorem build_args_tls_after_mtls :
    build ⟨":8080".toList, [], false, false, [], [], []⟩ (fun _ => (.ok () : Except String Unit))
        (chain [.withMTLS "s.crt".toList "s.key".toList "ca.crt".toList,
          .withTLS "s.crt".toList "s.key".toList, .withAddress ":50055".toList,
          .withAddress []]) =
        .ok (⟨":8080".toList, true, "s.crt".toList, "s.key".toList, false, []⟩, []) ∧
      (⟨":8080".toList, true, "s.crt".toList, "s.key".toList, false, []⟩ : ServerArgs).tls =
          (([BuilderCall.withMTLS "s.crt".toList "s.key".toList "ca.crt".toList,
            .withTLS "s.crt".toList "s.key".toList, .withAddress ":50055".toList,
            .withAddress []].filterMap BuilderCall.tlsSet).getLast?).getD
            (⟨":8080".toList, [], false, false, [], [], []⟩ : GlobalConfig).tls ∧
        (⟨":8080".toList, true, "s.crt".toList, "s.key".toList, false, []⟩ : ServerArgs).addr =
          if ([BuilderCall.withMTLS "s.crt".toList "s.key".toList "ca.crt".toList,
              .withTLS "s.crt".toList "s.key".toList, .withAddress ":50055".toList,
              .withAddress []].filterMap BuilderCall.addrSet).getLast?.getD [] = []
          then ":8080".toList
          else ([BuilderCall.withMTLS "s.crt".toList "s.key".toList "ca.crt".toList,
              .withTLS "s.crt".toList "s.key".toList, .withAddress ":50055".toList,
              .withAddress []].filterMap BuilderCall.addrSet).getLast?.getD [] :=
  (fun h => ⟨h, build_args _ _ _ h⟩) rfl

end SonicGnmi.Server
