import Borderless.Core
import Borderless.Lib.Program

/-!
# The configuration file

`crates/cli/src/config.rs`: the sections of `config.toml`, and how they are loaded and saved. The
state of a program is the content of the file, if there is one. A write that fails can leave
anything in the file. TOML is a parameter.
-/

namespace Borderless.Runtime

/-! ## The sections -/

/-- `DEFAULT_PORT`, the port of a hub unless configured. -/
def defaultPort : UInt16 := 38437

/-- An IP address. -/
inductive IpAddr
  | v4 (octets : Bytes 4)
  | v6 (octets : Bytes 16)
deriving DecidableEq

/-- A socket address. -/
structure SocketAddr where
  /-- The IP address. -/
  ip : IpAddr
  /-- The port. -/
  port : UInt16
deriving DecidableEq

/-- `NodeConfig`: how the node is called. -/
structure NodeConfig where
  /-- Display name. -/
  name : String
deriving DecidableEq

/-- `RoleKind`: what the node is, if that is known. -/
inductive RoleKind
  | unconfigured
  | hub
  | spoke
deriving DecidableEq

/-- `RoleConfig`: what the node is in the file. -/
structure RoleConfig where
  /-- Persistent role kind. -/
  kind : RoleKind
deriving DecidableEq

/-- `HubConfig`: where a hub listens, and whom it accepts. -/
structure HubConfig where
  /-- The IP address to bind. -/
  bindIp : IpAddr
  /-- Listening port. -/
  port : UInt16
  /-- Whether unknown spokes may pair. -/
  acceptNewPeers : Bool
deriving DecidableEq

/-- `HubConfig::bind_addr`: the address and the port to bind. -/
def HubConfig.bindAddr (hub : HubConfig) : SocketAddr := ⟨hub.bindIp, hub.port⟩

/-- `ClientConfig`: which hub a spoke dials. -/
structure ClientConfig where
  /-- Address of the hub, `host:port`. -/
  serverAddr : Option String
  /-- The pinned key of the hub in hex. -/
  expectedServerId : Option String
deriving DecidableEq

/-- `ClipboardConfig`: what of the clipboard is synced and kept. -/
structure ClipboardConfig where
  /-- Number of past snapshots to keep. -/
  historySize : ℕ
  /-- Whether to sync text. -/
  syncText : Bool
  /-- Whether to sync images. -/
  syncImage : Bool
deriving DecidableEq

instance : Inhabited ClipboardConfig := ⟨⟨50, true, true⟩⟩

/-- `InputConfig`: whether input is taken. -/
structure InputConfig where
  /-- Whether a spoke injects input events. -/
  enabled : Bool
deriving DecidableEq

/-- `Config`: the sections of `config.toml`. -/
structure Config where
  /-- `[node]` section. -/
  node : NodeConfig
  /-- `[role]` section. -/
  role : RoleConfig
  /-- `[hub]` section. -/
  hub : HubConfig
  /-- `[client]` section. -/
  client : ClientConfig
  /-- `[clipboard]` section. -/
  clipboard : ClipboardConfig
  /-- `[input]` section. -/
  input : InputConfig
deriving DecidableEq

/-- `gethostname_or`, with the environment variable `HOSTNAME`. -/
def gethostnameOr (hostname : Option String) (default : String) : String :=
  (hostname.filter (· ≠ "")).getD default

/-- `Config::default`: no role, no hub to dial, and everything else on. -/
def Config.default (hostname : Option String) : Config where
  node := ⟨gethostnameOr hostname "borderless"⟩
  role := ⟨.unconfigured⟩
  hub := ⟨.v4 (.replicate 4 0), defaultPort, false⟩
  client := ⟨none, none⟩
  clipboard := Inhabited.default
  input := ⟨true⟩

/-! ## Loading and saving -/

/-- The TOML crate. -/
structure ConfigFormat where
  /-- `toml::to_string_pretty`. -/
  toToml : Config → Except String String
  /-- `toml::from_str`. -/
  fromToml : String → Except String Config

/-- TOML decodes what it encoded. -/
def ConfigFormat.RoundTrip (f : ConfigFormat) : Prop :=
  ∀ cfg raw, f.toToml cfg = .ok raw → f.fromToml raw = .ok cfg

/-- An error of the command line interface. -/
inductive CliError
  /-- An I/O error. -/
  | io (e : String)
  /-- An error of the TOML crate. -/
  | toml (e : String)
  /-- `parse --bind`. -/
  | parseBind (bind e : String)
  /-- There is no server address. -/
  | noServerAddr (e : String)
  /-- `load identity`. -/
  | loadIdentity (e : String)
  /-- `open peer store`. -/
  | openPeerStore (e : String)
  /-- `build connector`. -/
  | buildConnector (e : String)
  /-- `bind tcp+tls listener`. -/
  | bindListener (e : String)
  /-- `parse expected_server_id`. -/
  | parseExpectedServerId (e : String)
deriving DecidableEq

/-- A program of the command line interface. -/
abbrev Cli (α : Type) := Prog CliError (Option String) α

/-- How the disk answers a call of `save`. -/
structure SaveEnv where
  /-- `fs::create_dir_all`. -/
  createDirAll : Except String Unit
  /-- `fs::write`, and what a failed one leaves in the file. -/
  write : Except (String × Option String) Unit

/-- `config::save`: the configuration is encoded and written over the file, whose directory is made
first. -/
def save (f : ConfigFormat) (env : SaveEnv) (cfg : Config) : Cli Unit := do
  Prog.lift (env.createDirAll.mapError .io)
  let raw ← Prog.lift ((f.toToml cfg).mapError .toml)
  match env.write with
  | .ok () => Prog.set (some raw)
  | .error (e, left) =>
    Prog.set left
    Prog.throw (.io e)

/-- How the system answers a call of `load_or_default`. -/
structure LoadEnv where
  /-- `fs::read_to_string` of a file that exists. -/
  readToString : Except String Unit
  /-- `fs::create_dir_all`. -/
  createDirAll : Except String Unit
  /-- The call of `save`. -/
  save : SaveEnv
  /-- The environment variable `HOSTNAME`. -/
  hostname : Option String

/-- `config::load_or_default`: the configuration of the file, or without a file the default, which
is saved. -/
def loadOrDefault (f : ConfigFormat) (env : LoadEnv) : Cli Config := do
  match ← Prog.get with
  | some raw =>
    Prog.lift (env.readToString.mapError .io)
    Prog.lift ((f.fromToml raw).mapError .toml)
  | none =>
    Prog.lift (env.createDirAll.mapError .io)
    let cfg := Config.default env.hostname
    save f env.save cfg
    pure cfg

/-- The configuration that is stored in the file. -/
def onDisk (f : ConfigFormat) (file : Option String) : Option Config :=
  file.bind fun raw => (f.fromToml raw).toOption

/-- The file was written from this configuration. -/
def Saved (f : ConfigFormat) (cfg : Config) (file : Option String) : Prop :=
  ∃ raw, f.toToml cfg = .ok raw ∧ file = some raw

section Files

variable {f : ConfigFormat} {cfg : Config} {file file' : Option String}

/-- A file that was written from a configuration has it. -/
theorem Saved.onDisk (hf : f.RoundTrip) (h : Saved f cfg file) : onDisk f file = some cfg := by
  obtain ⟨raw, hraw, rfl⟩ := h
  rw [Runtime.onDisk, Option.bind_some, hf cfg raw hraw, Except.toOption]

/-- A successful `save` writes the configuration. -/
theorem save_ok {env : SaveEnv} {y : Unit} (h : save f env cfg file = (.ok y, file')) :
    Saved f cfg file' := by
  obtain ⟨_, _, -, h⟩ := Prog.bind_ok_iff.1 h
  obtain ⟨raw, t, hraw, h⟩ := Prog.bind_ok_iff.1 h
  have htoml := Results.mapError_ok_iff.1 (Prog.lift_ok_iff.1 hraw).1
  cases hwrite : env.write with
  | ok _ =>
    simp only [hwrite] at h
    exact ⟨raw, htoml, (Prog.set_ok_iff.1 h).symm⟩
  | error e =>
    simp only [hwrite] at h
    obtain ⟨_, _, -, h⟩ := Prog.bind_ok_iff.1 h
    exact absurd h Prog.throw_ok

/-- A write that fails leaves this content in the file. -/
def SaveEnv.Leaves (env : SaveEnv) (file : Option String) : Prop :=
  ∀ e left, env.write = .error (e, left) → left = file

/-- A write that does not fail leaves nothing behind. -/
theorem SaveEnv.Leaves.of_ok {env : SaveEnv} (hwrite : env.write = .ok ()) (file : Option String) :
    env.Leaves file := by
  intro e left hfail
  rw [hwrite] at hfail
  cases hfail

/-- A `save` leaves the file as it is, or writes the configuration, unless its write fails half-way. -/
theorem save_cases {env : SaveEnv} (hwrite : env.Leaves file) :
    (save f env cfg file).2 = file ∨ Saved f cfg (save f env cfg file).2 := by
  rcases hsave : save f env cfg file with ⟨e | y, file'⟩
  · left
    rcases Prog.bind_error hsave with hdir | ⟨_, t, hdir, hrest⟩
    · exact (Prod.mk.inj hdir).2.symm
    · obtain ⟨-, rfl⟩ := Prog.lift_ok_iff.1 hdir
      rcases Prog.bind_error hrest with hraw | ⟨raw, t, hraw, hset⟩
      · exact (Prod.mk.inj hraw).2.symm
      · cases hanswer : env.write with
        | ok _ =>
          simp only [hanswer] at hset
          cases hset
        | error failed =>
          -- the failed write is the last step, so its content stays
          simp only [hanswer] at hset
          rw [← (Prod.mk.inj hset).2]
          exact hwrite failed.1 failed.2 hanswer
  · exact .inr (save_ok hsave)

/-- A successful `load_or_default` returns what is stored, or the default, which it stores. -/
theorem loadOrDefault_ok {env : LoadEnv} (h : loadOrDefault f env file = (.ok cfg, file')) :
    (∃ raw, file = some raw ∧ f.fromToml raw = .ok cfg ∧ file' = file) ∨
      (file = none ∧ cfg = .default env.hostname ∧ Saved f cfg file') := by
  obtain ⟨_, _, hget, h⟩ := Prog.bind_ok_iff.1 h
  obtain ⟨rfl, rfl⟩ := Prog.get_ok_iff.1 hget
  cases file with
  | some raw =>
    obtain ⟨_, _, hread, h⟩ := Prog.bind_ok_iff.1 h
    obtain ⟨-, rfl⟩ := Prog.lift_ok_iff.1 hread
    obtain ⟨hraw, rfl⟩ := Prog.lift_ok_iff.1 h
    exact .inl ⟨raw, rfl, Results.mapError_ok_iff.1 hraw, rfl⟩
  | none =>
    obtain ⟨_, _, -, h⟩ := Prog.bind_ok_iff.1 h
    obtain ⟨_, t, hsave, h⟩ := Prog.bind_ok_iff.1 h
    obtain ⟨rfl, rfl⟩ := Prog.pure_ok_iff.1 h
    exact .inr ⟨rfl, rfl, save_ok hsave⟩

/-- A file that can be read and parsed is loaded. -/
theorem loadOrDefault_stored {env : LoadEnv} {raw : String} (hread : env.readToString = .ok ())
    (hraw : f.fromToml raw = .ok cfg) :
    loadOrDefault f env (some raw) = (.ok cfg, some raw) := by
  have hget : (Prog.get : Cli (Option String)) (some raw) = (.ok (some raw), some raw) := rfl
  rw [loadOrDefault, Prog.bind_of_ok hget]
  simp only [hread, hraw]
  rfl

/-- The errors of loading and saving, and that there is no server address. -/
def CliError.IsConfig : CliError → Prop
  | .io _ | .toml _ | .noServerAddr _ => True
  | _ => False

/-- A result has the errors that it is given. -/
theorem failsWith_lift {α : Type} {x : Except String α} {g : String → CliError}
    (hg : ∀ e, (g e).IsConfig) :
    Prog.FailsWith CliError.IsConfig (Prog.lift (x.mapError g) : Cli α) := by
  refine .lift fun e he => ?_
  obtain ⟨e', -, rfl⟩ := Results.mapError_error he
  exact hg e'

/-- `save` fails with an I/O error or one of the TOML crate. -/
theorem save_failsWith (f : ConfigFormat) (env : SaveEnv) (cfg : Config) :
    Prog.FailsWith CliError.IsConfig (save f env cfg) := by
  refine (failsWith_lift (g := .io) fun _ => trivial).bind fun _ => ?_
  refine (failsWith_lift (g := .toml) fun _ => trivial).bind fun raw => ?_
  cases env.write with
  | ok _ => exact .set _
  | error e => exact (Prog.FailsWith.set _).bind fun _ => .throw trivial

/-- So does `load_or_default`. -/
theorem loadOrDefault_failsWith (f : ConfigFormat) (env : LoadEnv) :
    Prog.FailsWith CliError.IsConfig (loadOrDefault f env) := by
  refine Prog.FailsWith.get.bind fun file => ?_
  cases file with
  | some raw =>
    refine (failsWith_lift (g := .io) fun _ => trivial).bind fun _ => ?_
    exact failsWith_lift (g := .toml) fun _ => trivial
  | none =>
    refine (failsWith_lift (g := .io) fun _ => trivial).bind fun _ => ?_
    exact (save_failsWith _ _ _).bind fun _ => .pure _

end Files

end Borderless.Runtime
