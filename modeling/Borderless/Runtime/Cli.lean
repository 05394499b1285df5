import Borderless.Lib.Hex
import Borderless.Runtime.Client
import Borderless.Runtime.Config

/-!
# The command line interface

`main` of `crates/cli/src/main.rs`, up to the loops of the hub and of the spoke: the configuration
is loaded, the command changes it in memory, and some of the changes are saved. `ensure_role` saves
only where the role changes, and a pin is saved before `ClientRuntime::bootstrap` parses it. A run
is a sequence of invocations on one `config.toml`.
-/

namespace Borderless.Runtime

open Borderless.Transport Transition

/-- The functions of other crates. -/
structure CliCrates extends ConfigFormat where
  /-- The parser of socket addresses. -/
  parseSocketAddr : String → Except String SocketAddr
  /-- `hex::decode`. -/
  hexDecode : String → Option (List UInt8)

/-- How the system answers an invocation. -/
structure CliEnv where
  /-- `load_or_default`. -/
  load : LoadEnv
  /-- The first `ensure_role`. -/
  ensureRole : SaveEnv
  /-- The `save` of a pin. -/
  savePin : SaveEnv
  /-- The second `ensure_role`. -/
  ensureSpoke : SaveEnv
  /-- `Identity::load_or_generate`. -/
  identity : Except String Identity
  /-- `PeerStore::open`. -/
  peers : Except String PeerStore
  /-- `Connector::new`. -/
  connector : Except String Unit
  /-- `Listener::bind`. -/
  listener : Except String Unit

/-- A command. The last three do not change the configuration. -/
inductive Command
  | serve (bind : Option String) (acceptNewPeers : Bool)
  | connect (hostPort : Option String) (pair : Bool) (pin : Option String)
  | status
  | clip
  | doctor
deriving DecidableEq

/-- How far an invocation gets. -/
inductive Outcome
  /-- The hub runs. -/
  | serving (bind : SocketAddr) (acceptNewPeers : Bool)
  /-- The spoke dials. -/
  | dialing (rt : ClientRuntime)
  /-- The command is done. -/
  | done

/-- An invocation. -/
structure Invocation where
  /-- The command. -/
  command : Command
  /-- The system. -/
  env : CliEnv

/-! ## The commands -/

/-- `maybe_override_bind`: the address of the argument, in memory only, or the configured one. -/
def maybeOverrideBind (c : CliCrates) (cfg : Config) (bind : Option String) : Cli Config :=
  match bind with
  | some b => do
    let sa ← Prog.lift ((c.parseSocketAddr b).mapError (.parseBind b))
    pure { cfg with hub := ⟨sa.ip, sa.port, cfg.hub.acceptNewPeers⟩ }
  | none => pure cfg

/-- `ensure_role`: the configuration is saved with the wanted role unless it has it. -/
def ensureRole (f : ConfigFormat) (env : SaveEnv) (cfg : Config) (want : RoleKind) : Cli Config :=
  if cfg.role.kind ≠ want then do
    let cfg := { cfg with role := ⟨want⟩ }
    save f env cfg
    pure cfg
  else pure cfg

/-- `parse_pubkey`: the 32 bytes of a hex string. -/
def parsePubkey (c : CliCrates) (s : String) : Except String (Bytes 32) :=
  match c.hexDecode s with
  | none => .error "hex decode"
  | some bytes =>
    if h : bytes.length = 32 then .ok ⟨bytes, h⟩
    else
      let n := bytes.length
      .error s!"expected 32-byte pubkey, got {n}"

/-- The key of a pin, if there is one. -/
def expectedPubkey (c : CliCrates) (expectedServerId : Option String) : Cli (Option (Bytes 32)) :=
  match expectedServerId with
  | some s => do
    let key ← Prog.lift ((parsePubkey c s).mapError .parseExpectedServerId)
    pure (some key)
  | none => pure none

/-- `ClientRuntime::bootstrap`. The pin is parsed last. -/
def bootstrapClient (c : CliCrates) (env : CliEnv) (cfg : Config) (serverAddr : String)
    (expectedServerId : Option String) (acceptNewPeer : Bool) : Cli ClientRuntime := do
  let identity ← Prog.lift (env.identity.mapError .loadIdentity)
  let _ ← Prog.lift (env.peers.mapError .openPeerStore)
  Prog.lift (env.connector.mapError .buildConnector)
  let expectedServerPubkey ← expectedPubkey c expectedServerId
  pure ⟨identity, cfg.node.name, serverAddr, expectedServerPubkey, acceptNewPeer⟩

/-- The address to dial: that of the argument, which is put into the configuration, or the stored
one. -/
def resolveServerAddr (c : CliCrates) (env : CliEnv) (cfg : Config) (hostPort : Option String) :
    Cli (String × Config) :=
  match hostPort with
  | some h => do
    let cfg := { cfg with client := ⟨some h, cfg.client.expectedServerId⟩ }
    let cfg ← ensureRole c.toConfigFormat env.ensureRole cfg .spoke
    pure (h, cfg)
  | none =>
    match cfg.client.serverAddr with
    | some s => pure (s, cfg)
    | none => Prog.throw
        (.noServerAddr "no server address: pass `borderless connect <host:port>` once to set it")

/-- The pin is put into the configuration and saved. -/
def persistPin (c : CliCrates) (env : CliEnv) (cfg : Config) (expected : Option String) :
    Cli Config :=
  match expected with
  | some p => do
    let cfg := { cfg with client := ⟨cfg.client.serverAddr, some p⟩ }
    save c.toConfigFormat env.savePin cfg
    pure cfg
  | none => pure cfg

/-- The `Connect` arm up to `bootstrap`: the address, the pin, and the configuration. -/
def connectConfig (c : CliCrates) (env : CliEnv) (cfg : Config) (hostPort pin : Option String) :
    Cli (String × Option String × Config) := do
  let (serverAddr, cfg) ← resolveServerAddr c env cfg hostPort
  let expected := pin.or cfg.client.expectedServerId
  let cfg ← persistPin c env cfg expected
  let cfg ← ensureRole c.toConfigFormat env.ensureSpoke cfg .spoke
  pure (serverAddr, expected, cfg)

/-- The `Connect` arm. -/
def connect (c : CliCrates) (env : CliEnv) (cfg : Config) (hostPort : Option String) (pair : Bool)
    (pin : Option String) : Cli Outcome := do
  let (serverAddr, expected, cfg) ← connectConfig c env cfg hostPort pin
  let rt ← bootstrapClient c env cfg serverAddr expected pair
  pure (.dialing rt)

/-- The `Serve` arm. -/
def serve (c : CliCrates) (env : CliEnv) (cfg : Config) (bind : Option String)
    (acceptNewPeers : Bool) : Cli Outcome := do
  let cfg ← maybeOverrideBind c cfg bind
  let cfg ← ensureRole c.toConfigFormat env.ensureRole cfg .hub
  let _ ← Prog.lift (env.identity.mapError .loadIdentity)
  let _ ← Prog.lift (env.peers.mapError .openPeerStore)
  Prog.lift (env.listener.mapError .bindListener)
  pure (.serving cfg.hub.bindAddr (acceptNewPeers || cfg.hub.acceptNewPeers))

/-- `main`: the configuration is loaded, and the command runs with it. -/
def Invocation.main (c : CliCrates) (inv : Invocation) : Cli Outcome := do
  let cfg ← loadOrDefault c.toConfigFormat inv.env.load
  match inv.command with
  | .serve bind acceptNewPeers => serve c inv.env cfg bind acceptNewPeers
  | .connect hostPort pair pin => connect c inv.env cfg hostPort pair pin
  | _ => pure .done

/-- Invocations one after the other, with the content of `config.toml` as the state. -/
def cli (c : CliCrates) : System (Option String) Invocation where
  init _ := True
  step file inv := some (inv.main c file).2

/-! ## What a `connect` saves -/

section Connect

variable {c : CliCrates} {env : CliEnv} {cfg cfg' : Config} {file file' : Option String}
  {addr : String} {hostPort pin expected : Option String}

/-- The role is as wanted already, or the configuration is saved with it. -/
theorem ensureRole_ok {f : ConfigFormat} {env : SaveEnv} {want : RoleKind}
    (h : ensureRole f env cfg want file = (.ok cfg', file')) :
    cfg.role.kind = want ∧ cfg' = cfg ∧ file' = file ∨
      cfg.role.kind ≠ want ∧ cfg' = { cfg with role := ⟨want⟩ } ∧ Saved f cfg' file' := by
  unfold ensureRole at h
  split_ifs at h with hrole
  · obtain ⟨_, t, hsave, h⟩ := Prog.bind_ok_iff.1 h
    obtain ⟨rfl, rfl⟩ := Prog.pure_ok_iff.1 h
    exact .inr ⟨hrole, rfl, save_ok hsave⟩
  · obtain ⟨rfl, rfl⟩ := Prog.pure_ok_iff.1 h
    exact .inl ⟨not_not.1 hrole, rfl, rfl⟩

/-- The address is in the configuration, which is saved only where the role changes. -/
theorem resolveServerAddr_ok
    (h : resolveServerAddr c env cfg hostPort file = (.ok (addr, cfg'), file')) :
    hostPort.or cfg.client.serverAddr = some addr ∧
      cfg'.client = ⟨some addr, cfg.client.expectedServerId⟩ ∧
      (cfg'.role = cfg.role ∧ file' = file ∨
        cfg.role.kind ≠ .spoke ∧ cfg'.role.kind = .spoke ∧ Saved c.toConfigFormat cfg' file') := by
  unfold resolveServerAddr at h
  cases hostPort with
  | some a =>
    obtain ⟨cfg₁, t, hrole, h⟩ := Prog.bind_ok_iff.1 h
    obtain ⟨hpair, rfl⟩ := Prog.pure_ok_iff.1 h
    obtain ⟨rfl, rfl⟩ := Prod.mk.inj hpair
    rcases ensureRole_ok hrole with ⟨-, rfl, rfl⟩ | ⟨hne, rfl, hsaved⟩
    · exact ⟨rfl, rfl, .inl ⟨rfl, rfl⟩⟩
    · exact ⟨rfl, rfl, .inr ⟨hne, rfl, hsaved⟩⟩
  | none =>
    cases hstored : cfg.client.serverAddr with
    | some s =>
      simp only [hstored] at h
      obtain ⟨hpair, rfl⟩ := Prog.pure_ok_iff.1 h
      obtain ⟨rfl, rfl⟩ := Prod.mk.inj hpair
      exact ⟨rfl, by rw [← hstored], .inl ⟨rfl, rfl⟩⟩
    | none =>
      simp only [hstored] at h
      exact absurd h Prog.throw_ok

/-- A pin is saved. -/
theorem persistPin_ok (h : persistPin c env cfg expected file = (.ok cfg', file')) :
    cfg'.role = cfg.role ∧
      (expected = none ∧ cfg' = cfg ∧ file' = file ∨
        ∃ p, expected = some p ∧ cfg'.client = ⟨cfg.client.serverAddr, some p⟩ ∧
          Saved c.toConfigFormat cfg' file') := by
  unfold persistPin at h
  cases expected with
  | some p =>
    obtain ⟨_, t, hsave, h⟩ := Prog.bind_ok_iff.1 h
    obtain ⟨rfl, rfl⟩ := Prog.pure_ok_iff.1 h
    exact ⟨rfl, .inr ⟨p, rfl, rfl, save_ok hsave⟩⟩
  | none =>
    obtain ⟨rfl, rfl⟩ := Prog.pure_ok_iff.1 h
    exact ⟨rfl, .inl ⟨rfl, rfl, rfl⟩⟩

/-- The configuration has the address and the pin. It is saved if the role changes or there is a
pin, and otherwise the file stays as it is. -/
theorem connectConfig_ok
    (h : connectConfig c env cfg hostPort pin file = (.ok (addr, expected, cfg'), file')) :
    hostPort.or cfg.client.serverAddr = some addr ∧
      expected = pin.or cfg.client.expectedServerId ∧ cfg'.client = ⟨some addr, expected⟩ ∧
      (cfg.role.kind = .spoke ∧ expected = none ∧ file' = file ∨
        (cfg.role.kind ≠ .spoke ∨ expected ≠ none) ∧ Saved c.toConfigFormat cfg' file') := by
  obtain ⟨⟨addr₁, cfg₁⟩, file₁, haddr, h⟩ := Prog.bind_ok_iff.1 h
  obtain ⟨cfg₂, file₂, hpin, h⟩ := Prog.bind_ok_iff.1 h
  obtain ⟨cfg₃, file₃, hrole, h⟩ := Prog.bind_ok_iff.1 h
  obtain ⟨htriple, rfl⟩ := Prog.pure_ok_iff.1 h
  obtain ⟨rfl, hpair⟩ := Prod.mk.inj htriple
  obtain ⟨rfl, rfl⟩ := Prod.mk.inj hpair
  obtain ⟨hresolved, hclient₁, hfile₁⟩ := resolveServerAddr_ok haddr
  rw [hclient₁] at hpin ⊢
  obtain ⟨hrole₂, ⟨hnone, rfl, rfl⟩ | ⟨p, hsome, hclient₂, hsaved₂⟩⟩ := persistPin_ok hpin
  · -- without a pin the file is written for the role only
    refine ⟨hresolved, rfl, ?_⟩
    dsimp only at hnone ⊢
    rw [hnone]
    have hnone' : cfg.client.expectedServerId = none := (Option.or_eq_none_iff.1 hnone).2
    rcases ensureRole_ok hrole with ⟨hspoke, rfl, rfl⟩ | ⟨hne, rfl, hsaved⟩
    · refine ⟨by rw [hclient₁, hnone'], ?_⟩
      rcases hfile₁ with ⟨hsame, rfl⟩ | ⟨hne, -, hsaved⟩
      · exact .inl ⟨by rw [← hsame, hspoke], rfl, rfl⟩
      · exact .inr ⟨.inl hne, hsaved⟩
    · refine ⟨by rw [hclient₁, hnone'], ?_⟩
      rcases hfile₁ with ⟨hsame, rfl⟩ | ⟨-, hspoke, -⟩
      · exact .inr ⟨.inl (by rwa [← hsame]), hsaved⟩
      · exact absurd hspoke hne
  · -- with a pin it is written, and it has the address by then
    refine ⟨hresolved, rfl, ?_⟩
    dsimp only at hsome ⊢
    rw [hsome]
    rw [hclient₁] at hclient₂
    rcases ensureRole_ok hrole with ⟨-, rfl, rfl⟩ | ⟨-, rfl, hsaved⟩
    · exact ⟨hclient₂, .inr ⟨.inr (Option.some_ne_none p), hsaved₂⟩⟩
    · exact ⟨hclient₂, .inr ⟨.inr (Option.some_ne_none p), hsaved⟩⟩

end Connect

/-! ## The stored address -/

/-- The address that is stored in the file. -/
def storedAddr (f : ConfigFormat) (file : Option String) : Option String :=
  (onDisk f file).bind fun cfg => cfg.client.serverAddr

/-- The pin that is stored in the file. -/
def storedPin (f : ConfigFormat) (file : Option String) : Option String :=
  (onDisk f file).bind fun cfg => cfg.client.expectedServerId

/-- The invocation gets as far as dialing. -/
def Invocation.Dials (c : CliCrates) (inv : Invocation) (file : Option String)
    (rt : ClientRuntime) : Prop :=
  (inv.main c file).1 = .ok (.dialing rt)

/-- The address argument of an invocation. -/
def Invocation.hostPort (inv : Invocation) : Option String :=
  match inv.command with
  | .connect hostPort _ _ => hostPort
  | _ => none

/-- The pin argument of an invocation. -/
def Invocation.pin (inv : Invocation) : Option String :=
  match inv.command with
  | .connect _ _ pin => pin
  | _ => none

/-- Something makes the invocation save the address, or the file has it already: there is no file,
the stored role is not that of a spoke, there is a pin as an argument or in the file, or the stored
address is the same. -/
def Invocation.SavesAddr (f : ConfigFormat) (inv : Invocation) (file : Option String) (addr : String) :
    Prop :=
  ∀ cfg, onDisk f file = some cfg → cfg.role.kind ≠ .spoke ∨ inv.pin ≠ none ∨
    cfg.client.expectedServerId ≠ none ∨ cfg.client.serverAddr = some addr

section StoredAddr

variable {c : CliCrates} {inv : Invocation} {file file' : Option String} {rt : ClientRuntime}
  {cfg : Config} {addr : String}

/-- A spoke that starts has a pin that parses, if any. Nothing is saved on the way. -/
theorem bootstrapClient_ok {env : CliEnv} {expected : Option String} {pair : Bool}
    (h : bootstrapClient c env cfg addr expected pair file = (.ok rt, file')) :
    rt.serverAddr = addr ∧ file' = file ∧
      ∀ p, expected = some p → ∃ key, parsePubkey c p = .ok key := by
  obtain ⟨_, _, hidentity, h⟩ := Prog.bind_ok_iff.1 h
  obtain ⟨-, rfl⟩ := Prog.lift_ok_iff.1 hidentity
  obtain ⟨_, _, hpeers, h⟩ := Prog.bind_ok_iff.1 h
  obtain ⟨-, rfl⟩ := Prog.lift_ok_iff.1 hpeers
  obtain ⟨_, _, hconnector, h⟩ := Prog.bind_ok_iff.1 h
  obtain ⟨-, rfl⟩ := Prog.lift_ok_iff.1 hconnector
  obtain ⟨key, t, hkey, h⟩ := Prog.bind_ok_iff.1 h
  obtain ⟨rfl, rfl⟩ := Prog.pure_ok_iff.1 h
  cases expected with
  | none =>
    obtain ⟨-, rfl⟩ := Prog.pure_ok_iff.1 hkey
    exact ⟨rfl, rfl, fun p hp => nomatch hp⟩
  | some s =>
    obtain ⟨key', _, hlift, hkey⟩ := Prog.bind_ok_iff.1 hkey
    obtain ⟨hparse, rfl⟩ := Prog.lift_ok_iff.1 hlift
    obtain ⟨-, rfl⟩ := Prog.pure_ok_iff.1 hkey
    refine ⟨rfl, rfl, ?_⟩
    rintro p hp
    obtain rfl := Option.some.inj hp
    exact ⟨key', Results.mapError_ok_iff.1 hparse⟩

/-- Starting a spoke does not touch the configuration. -/
theorem bootstrapClient_keeps (I : Option String → Prop) (c : CliCrates) (env : CliEnv)
    (cfg : Config) (addr : String) (expected : Option String) (pair : Bool) :
    Prog.Keeps I (bootstrapClient c env cfg addr expected pair) := by
  have hkey : Prog.Keeps I (expectedPubkey c expected) := by
    unfold expectedPubkey
    cases expected with
    | some p => exact (Prog.Keeps.lift _).seq fun _ => .pure _
    | none => exact .pure _
  refine (Prog.Keeps.lift _).seq fun _ => ?_
  refine (Prog.Keeps.lift _).seq fun _ => ?_
  refine (Prog.Keeps.lift _).seq fun _ => ?_
  exact hkey.seq fun _ => .pure _

/-- A hub does not dial. -/
theorem serve_ne_dialing {env : CliEnv} {bind : Option String} {acceptNewPeers : Bool} :
    serve c env cfg bind acceptNewPeers file ≠ (.ok (.dialing rt), file') := by
  intro h
  obtain ⟨_, _, -, h⟩ := Prog.bind_ok_iff.1 h
  obtain ⟨_, _, -, h⟩ := Prog.bind_ok_iff.1 h
  obtain ⟨_, _, -, h⟩ := Prog.bind_ok_iff.1 h
  obtain ⟨_, _, -, h⟩ := Prog.bind_ok_iff.1 h
  obtain ⟨_, _, -, h⟩ := Prog.bind_ok_iff.1 h
  exact absurd (Prog.pure_ok_iff.1 h).1 (by simp)

/-- What an invocation that dials has loaded, and what it leaves in the file. -/
theorem dials_cases (h : inv.Dials c file rt) : ∃ cfg file₁ cfg',
    loadOrDefault c.toConfigFormat inv.env.load file = (.ok cfg, file₁) ∧
      inv.hostPort.or cfg.client.serverAddr = some rt.serverAddr ∧
      cfg'.client = ⟨some rt.serverAddr, inv.pin.or cfg.client.expectedServerId⟩ ∧
      (cfg.role.kind = .spoke ∧ inv.pin.or cfg.client.expectedServerId = none ∧
          (inv.main c file).2 = file₁ ∨
        (cfg.role.kind ≠ .spoke ∨ inv.pin.or cfg.client.expectedServerId ≠ none) ∧
          Saved c.toConfigFormat cfg' (inv.main c file).2) ∧
      ∀ p, inv.pin.or cfg.client.expectedServerId = some p → ∃ key, parsePubkey c p = .ok key := by
  have hmain : inv.main c file = (.ok (.dialing rt), (inv.main c file).2) := Prod.ext h rfl
  revert hmain
  generalize (inv.main c file).2 = file₂
  intro hmain
  obtain ⟨cfg, file₁, hload, hmain⟩ := Prog.bind_ok_iff.1 hmain
  unfold Invocation.hostPort Invocation.pin
  cases hcommand : inv.command with
  | connect hostPort pair pin =>
    simp only [hcommand] at hmain
    obtain ⟨⟨addr, expected, cfg'⟩, t, hconfig, hmain⟩ := Prog.bind_ok_iff.1 hmain
    obtain ⟨rt', u, hboot, hmain⟩ := Prog.bind_ok_iff.1 hmain
    obtain ⟨heq, rfl⟩ := Prog.pure_ok_iff.1 hmain
    obtain rfl := Outcome.dialing.inj heq
    obtain ⟨haddr, rfl, hparse⟩ := bootstrapClient_ok hboot
    subst haddr
    obtain ⟨hresolved, rfl, hclient, hfile⟩ := connectConfig_ok hconfig
    exact ⟨cfg, file₁, cfg', hload, hresolved, hclient, hfile, hparse⟩
  | serve bind acceptNewPeers =>
    simp only [hcommand] at hmain
    exact absurd hmain serve_ne_dialing
  | _ =>
    simp only [hcommand] at hmain
    exact absurd (Prog.pure_ok_iff.1 hmain).1 (by simp)

/-- A configuration that was loaded is stored. -/
theorem onDisk_of_load {f : ConfigFormat} (hf : f.RoundTrip) {env : LoadEnv}
    (h : loadOrDefault f env file = (.ok cfg, file')) : onDisk f file' = some cfg := by
  rcases loadOrDefault_ok h with ⟨raw, rfl, hraw, rfl⟩ | ⟨-, -, hsaved⟩
  · rw [onDisk, Option.bind_some, hraw, Except.toOption]
  · exact hsaved.onDisk hf

/-- An invocation that dials an address leaves it in the file precisely when something makes it save
the address or the file has it already. -/
theorem storedAddr_iff (hf : c.RoundTrip) (hhost : inv.hostPort = some addr)
    (h : inv.Dials c file rt) : storedAddr c.toConfigFormat (inv.main c file).2 = some addr ↔
      inv.SavesAddr c.toConfigFormat file addr := by
  obtain ⟨cfg, file₁, cfg', hload, haddr, hclient, hfile, -⟩ := dials_cases h
  rw [hhost, Option.some_or, Option.some.injEq] at haddr
  unfold storedAddr Invocation.SavesAddr
  have hdisk := onDisk_of_load hf hload
  rcases hfile with ⟨hspoke, hnone, hsame⟩ | ⟨hchanged, hsaved⟩
  · -- nothing is saved, so the file has what was loaded
    obtain ⟨hpin, hexpected⟩ := Option.or_eq_none_iff.1 hnone
    rw [hsame, hdisk, Option.bind_some]
    rcases loadOrDefault_ok hload with ⟨raw, rfl, -, rfl⟩ | ⟨-, rfl, -⟩
    · rw [hdisk]
      simp [hspoke, hpin, hexpected]
    · cases hspoke
  · -- the file has the address, and what made the invocation save it is one of the reasons
    rw [hsaved.onDisk hf, Option.bind_some, hclient, haddr]
    refine iff_of_true rfl fun stored hstored => ?_
    rcases loadOrDefault_ok hload with ⟨raw, rfl, -, rfl⟩ | ⟨rfl, -, -⟩
    · obtain rfl := Option.some.inj (hdisk.symm.trans hstored)
      rcases hchanged with hrole | hpin
      · exact .inl hrole
      · rw [ne_eq, Option.or_eq_none_iff, not_and_or] at hpin
        rcases hpin with hpin | hpin
        · exact .inr (.inl hpin)
        · exact .inr (.inr (.inl hpin))
    · cases hstored

end StoredAddr

/-! ## The address stays -/

/-- The disk does not fail while a file is written. -/
structure Invocation.WritesWork (inv : Invocation) : Prop where
  /-- In `load_or_default`. -/
  load : inv.env.load.save.write = .ok ()
  /-- In the first `ensure_role`. -/
  ensureRole : inv.env.ensureRole.write = .ok ()
  /-- In the `save` of a pin. -/
  savePin : inv.env.savePin.write = .ok ()
  /-- In the second `ensure_role`. -/
  ensureSpoke : inv.env.ensureSpoke.write = .ok ()

section Stays

variable {c : CliCrates} {f : ConfigFormat} {inv : Invocation} {env : CliEnv} {cfg cfg' : Config}
  {file file' : Option String} {addr : String}

/-- The address in `config.toml` is this one. -/
def HasAddr (f : ConfigFormat) (addr : String) (file : Option String) : Prop :=
  storedAddr f file = some addr

/-- A `save` of a configuration with the address keeps it in the file. -/
theorem save_keeps (hf : f.RoundTrip) {env : SaveEnv} (hwrite : env.write = .ok ())
    (hcfg : cfg.client.serverAddr = some addr) :
    Prog.Keeps (HasAddr f addr) (save f env cfg) := by
  intro file hfile
  rcases save_cases (SaveEnv.Leaves.of_ok hwrite file) with hsame | hsaved
  · rwa [hsame]
  · unfold HasAddr storedAddr
    rw [hsaved.onDisk hf, Option.bind_some, hcfg]

/-- A role is saved with the address. -/
theorem ensureRole_keeps (hf : f.RoundTrip) {env : SaveEnv} (hwrite : env.write = .ok ())
    (hcfg : cfg.client.serverAddr = some addr) (want : RoleKind) :
    Prog.Keeps (HasAddr f addr) (ensureRole f env cfg want) := by
  unfold ensureRole
  split_ifs
  · have hcfg' : ({ cfg with role := ⟨want⟩ } : Config).client.serverAddr = some addr := hcfg
    exact (save_keeps hf hwrite hcfg').seq fun _ => .pure _
  · exact .pure _

/-- A pin is saved with the address. -/
theorem persistPin_keeps (hf : c.RoundTrip) (hwrite : env.savePin.write = .ok ())
    (hcfg : cfg.client.serverAddr = some addr) (expected : Option String) :
    Prog.Keeps (HasAddr c.toConfigFormat addr) (persistPin c env cfg expected) := by
  unfold persistPin
  cases expected with
  | some p =>
    have hcfg' : (Config.client
        { cfg with client := ⟨cfg.client.serverAddr, some p⟩ }).serverAddr = some addr := hcfg
    exact (save_keeps hf hwrite hcfg').seq fun _ => .pure _
  | none => exact .pure _

/-- A file that is loaded stays as it is. -/
theorem loadOrDefault_keeps (f : ConfigFormat) (env : LoadEnv) (addr : String) :
    Prog.Keeps (HasAddr f addr) (loadOrDefault f env) := by
  intro file hfile
  cases file with
  | none => cases hfile
  | some raw =>
    have hread : Prog.Keeps (HasAddr f addr)
        (Prog.lift (env.readToString.mapError .io) >>= fun _ =>
          Prog.lift ((f.fromToml raw).mapError .toml) : Cli Config) :=
      (Prog.Keeps.lift _).seq fun _ => .lift _
    exact hread (some raw) hfile

/-- The role of the hub is saved with the stored address. -/
theorem serve_keeps (hf : c.RoundTrip) (hwrite : env.ensureRole.write = .ok ())
    (hcfg : cfg.client.serverAddr = some addr) (bind : Option String) (acceptNewPeers : Bool) :
    Prog.Keeps (HasAddr c.toConfigFormat addr) (serve c env cfg bind acceptNewPeers) := by
  have hbind : Prog.Keeps (HasAddr c.toConfigFormat addr) (maybeOverrideBind c cfg bind) := by
    unfold maybeOverrideBind
    cases bind with
    | some b => exact (Prog.Keeps.lift _).seq fun _ => .pure _
    | none => exact .pure _
  have hclient : ∀ {file cfg' file'}, maybeOverrideBind c cfg bind file = (.ok cfg', file') →
      cfg'.client = cfg.client := by
    intro file cfg' file' h
    unfold maybeOverrideBind at h
    cases bind with
    | some b =>
      obtain ⟨_, _, -, h⟩ := Prog.bind_ok_iff.1 h
      obtain ⟨rfl, -⟩ := Prog.pure_ok_iff.1 h
      rfl
    | none =>
      obtain ⟨rfl, -⟩ := Prog.pure_ok_iff.1 h
      rfl
  refine hbind.bind fun _ cfg' _ hcfg' _ => ?_
  have hcfg₁ : cfg'.client.serverAddr = some addr := by rw [hclient hcfg', hcfg]
  refine (ensureRole_keeps hf hwrite hcfg₁ .hub).seq fun _ => ?_
  refine (Prog.Keeps.lift _).seq fun _ => ?_
  refine (Prog.Keeps.lift _).seq fun _ => ?_
  exact (Prog.Keeps.lift _).seq fun _ => .pure _

/-- A `connect` without an argument saves the stored address. -/
theorem connect_keeps (hf : c.RoundTrip) (hpin : env.savePin.write = .ok ())
    (hspoke : env.ensureSpoke.write = .ok ()) (hcfg : cfg.client.serverAddr = some addr)
    (pair : Bool) (pin : Option String) :
    Prog.Keeps (HasAddr c.toConfigFormat addr) (connect c env cfg none pair pin) := by
  have hresolve : Prog.Keeps (HasAddr c.toConfigFormat addr)
      (resolveServerAddr c env cfg none) := by
    unfold resolveServerAddr
    rw [hcfg]
    exact .pure _
  have hconfig : Prog.Keeps (HasAddr c.toConfigFormat addr)
      (connectConfig c env cfg none pin) := by
    refine hresolve.bind fun _ resolved _ hresolved _ => ?_
    obtain ⟨a, cfg₁⟩ := resolved
    obtain ⟨haddr, hclient, -⟩ := resolveServerAddr_ok hresolved
    have hcfg₁ : cfg₁.client.serverAddr = some addr := by
      rw [hclient, ← haddr, Option.none_or, hcfg]
    refine (persistPin_keeps hf hpin hcfg₁ _).bind fun _ cfg₂ _ hpersist _ => ?_
    have hcfg₂ : cfg₂.client.serverAddr = some addr := by
      rcases (persistPin_ok hpersist).2 with ⟨-, rfl, -⟩ | ⟨p, -, hclient₂, -⟩
      · exact hcfg₁
      · rw [hclient₂, hcfg₁]
    exact (ensureRole_keeps hf hspoke hcfg₂ .spoke).seq fun _ => .pure _
  refine hconfig.seq fun configured => ?_
  obtain ⟨a, expected, cfg'⟩ := configured
  exact (bootstrapClient_keeps _ _ _ _ _ _ _).seq fun _ => .pure _

/-- An invocation without an address argument keeps the stored address. -/
theorem main_keeps (hf : c.RoundTrip) (hhost : inv.hostPort = none) (hwrites : inv.WritesWork) :
    Prog.Keeps (HasAddr c.toConfigFormat addr) (inv.main c) := by
  refine (loadOrDefault_keeps _ _ _).bind fun file cfg file₁ hload hfile₁ => ?_
  have hcfg : cfg.client.serverAddr = some addr := by
    unfold HasAddr storedAddr at hfile₁
    rwa [onDisk_of_load hf hload] at hfile₁
  unfold Invocation.hostPort at hhost
  cases hcommand : inv.command with
  | serve bind acceptNewPeers =>
    exact serve_keeps hf hwrites.ensureRole hcfg bind acceptNewPeers
  | connect hostPort pair pin =>
    rw [hcommand] at hhost
    dsimp only at hhost
    rw [hhost]
    exact connect_keeps hf hwrites.savePin hwrites.ensureSpoke hcfg pair pin
  | _ => exact .pure _

/-- Invocations without an address argument keep the stored address. -/
theorem run_keeps (hf : c.RoundTrip) {invs : List Invocation}
    (hinvs : ∀ inv ∈ invs, inv.hostPort = none ∧ inv.WritesWork)
    (hrun : (cli c).run file invs = some file')
    (hfile : storedAddr c.toConfigFormat file = some addr) :
    storedAddr c.toConfigFormat file' = some addr := by
  refine System.run_invariant (P := fun _ inv => inv.hostPort = none ∧ inv.WritesWork)
    (I := HasAddr c.toConfigFormat addr) ?_ hfile
    (fun p hp => hinvs _ (System.label_mem_of_mem_steps hp)) hrun
  intro s inv t hs hguard hstep
  obtain rfl := Option.some.inj hstep
  exact main_keeps hf hguard.1 hguard.2 s hs

/-- A `connect` without an argument dials the stored address. -/
theorem dials_stored (hf : c.RoundTrip) {rt : ClientRuntime} (hhost : inv.hostPort = none)
    (h : inv.Dials c file rt) (hfile : storedAddr c.toConfigFormat file = some addr) :
    rt.serverAddr = addr := by
  obtain ⟨cfg, file₁, cfg', hload, haddr, -⟩ := dials_cases h
  have hfile₁ : storedAddr c.toConfigFormat file₁ = some addr := by
    have hkeeps := loadOrDefault_keeps c.toConfigFormat inv.env.load addr file hfile
    rwa [hload] at hkeeps
  unfold storedAddr at hfile₁
  rw [onDisk_of_load hf hload, Option.bind_some] at hfile₁
  rw [hhost, Option.none_or, hfile₁] at haddr
  exact (Option.some.inj haddr).symm

end Stays

/-- Whenever an invocation with an address gets as far as dialing, something makes it save the
address, or the file has it already. -/
def KeepsAddr (c : CliCrates) (file : Option String) (inv : Invocation) : Prop :=
  ∀ addr rt, inv.hostPort = some addr → inv.Dials c file rt →
    inv.SavesAddr c.toConfigFormat file addr

/-- Whenever an invocation with an address gets as far as dialing, the address is in the file after
it. -/
def RemembersAddr (c : CliCrates) (file : Option String) (inv : Invocation)
    (file' : Option String) : Prop :=
  ∀ addr rt, inv.hostPort = some addr → inv.Dials c file rt →
    storedAddr c.toConfigFormat file' = some addr

/-- The address of the hub. In every sequence of invocations on any `config.toml`, a `connect` with
an address that gets as far as dialing leaves the address in the file if and only if there is no
file, or the stored role is not that of a spoke, or there is a pin as an argument or in the file, or
the stored address is the same. After such a `connect` and any invocations without an address, whose
writes do not fail, a `connect` without an address dials this address. -/
theorem connect_remembers (c : CliCrates) (hf : c.RoundTrip) :
    (∀ file invs, (∀ p ∈ (cli c).steps file invs, RemembersAddr c p.1 p.2.1 p.2.2) ↔
      ∀ p ∈ (cli c).steps file invs, KeepsAddr c p.1 p.2.1) ∧
    ∀ file (inv last : Invocation) addr rt invs file' rt', inv.hostPort = some addr →
      inv.Dials c file rt → KeepsAddr c file inv →
      (∀ i ∈ invs, i.hostPort = none ∧ i.WritesWork) →
      (cli c).run (inv.main c file).2 invs = some file' → last.hostPort = none →
      last.Dials c file' rt' → rt'.serverAddr = addr := by
  constructor
  · intro file invs
    refine forall₂_congr fun p hp => ?_
    rw [← Option.some.inj (System.step_of_mem_steps hp)]
    unfold RemembersAddr KeepsAddr
    refine forall₄_congr fun addr rt hhost hdials => ?_
    exact storedAddr_iff hf hhost hdials
  · intro file inv last addr rt invs file' rt' hhost hdials hkeeps hinvs hrun hlast hlastDials
    have hstored := (storedAddr_iff hf hhost hdials).2 (hkeeps addr rt hhost hdials)
    exact dials_stored hf hlast hlastDials (run_keeps hf hinvs hrun hstored)

section Example

/-- An address of the form that `Display` gives, for IPv4. -/
def ipText : IpAddr → String
  | .v4 octets => ".".intercalate (octets.toList.map fun b => toString b)
  | .v6 _ => ""

/-- A line of a section, if there is a value. -/
def optionLine (key : String) (value : Option String) : String :=
  match value with
  | some v => key ++ " = \"" ++ v ++ "\"\n"
  | none => ""

/-- The name of a role in the file. -/
def RoleKind.text : RoleKind → String
  | .unconfigured => "unconfigured"
  | .hub => "hub"
  | .spoke => "spoke"

/-- The TOML text of a configuration whose strings need no escapes. -/
def configText (cfg : Config) : String :=
  "[node]\nname = \"" ++ cfg.node.name ++ "\"\n\n[role]\nkind = \"" ++ cfg.role.kind.text ++
    "\"\n\n[hub]\nbind_ip = \"" ++ ipText cfg.hub.bindIp ++ "\"\nport = " ++ toString cfg.hub.port ++
    "\naccept_new_peers = " ++ toString cfg.hub.acceptNewPeers ++ "\n\n[client]\n" ++
    optionLine "server_addr" cfg.client.serverAddr ++
    optionLine "expected_server_id" cfg.client.expectedServerId ++ "\n[clipboard]\nhistory_size = " ++
    toString cfg.clipboard.historySize ++ "\nsync_text = " ++ toString cfg.clipboard.syncText ++
    "\nsync_image = " ++ toString cfg.clipboard.syncImage ++ "\n\n[input]\nenabled = " ++
    toString cfg.input.enabled ++ "\n"

/-- A spoke with an address and perhaps a pin. -/
def spokeConfig (addr : String) (pin : Option String) : Config :=
  { Config.default none with role := ⟨.spoke⟩, client := ⟨some addr, pin⟩ }

/-- The configurations of the examples. -/
def sampleConfigs : List Config :=
  [.default none, spokeConfig "a:1" none, spokeConfig "a:1" (some "zz")]

/-- Functions that stand in for the crates on these configurations. -/
def sampleCli : CliCrates where
  toToml cfg := if cfg ∈ sampleConfigs then .ok (configText cfg) else .error "unsupported"
  fromToml raw :=
    match sampleConfigs.find? fun cfg => configText cfg == raw with
    | some cfg => .ok cfg
    | none => .error "unsupported"
  parseSocketAddr _ := .error "unsupported"
  hexDecode := Hex.decode

/-- `sampleCli` decodes what it encoded. -/
theorem sampleCli_roundTrip : sampleCli.RoundTrip := by
  have hfind : ∀ cfg ∈ sampleConfigs,
      sampleConfigs.find? (fun cfg' => configText cfg' == configText cfg) = some cfg := by
    decide +kernel
  intro cfg raw h
  simp only [sampleCli] at h ⊢
  split_ifs at h with hmem
  obtain rfl := Except.ok.inj h
  rw [hfind cfg hmem]

/-- A `save` that works. -/
def savesWell : SaveEnv := ⟨.ok (), .ok ()⟩

/-- An invocation for which all goes well. -/
def invoke (command : Command) : Invocation where
  command := command
  env := {
    load := ⟨.ok (), .ok (), savesWell, none⟩
    ensureRole := savesWell
    savePin := savesWell
    ensureSpoke := savesWell
    identity := .ok (sampleIdentity 9)
    peers := .ok ⟨none, ∅⟩
    connector := .ok ()
    listener := .ok () }

/-- The file of a spoke. -/
def spokeFile : String := configText (spokeConfig "a:1" none)

/-- `spokeFile` has an address and no pin. -/
theorem fromToml_spokeFile : sampleCli.fromToml spokeFile = .ok (spokeConfig "a:1" none) := by
  refine sampleCli_roundTrip _ _ ?_
  decide +kernel

/-- On the first run, `connect a:1` leaves its address in the file. -/
theorem first_connect_remembered : ¬ ∃ p ∈ (cli sampleCli).steps none
    [invoke (.connect (some "a:1") true none)], ¬ RemembersAddr sampleCli p.1 p.2.1 p.2.2 := by
  rintro ⟨p, hp, hnot⟩
  refine hnot (((connect_remembers sampleCli sampleCli_roundTrip).1 none _).2 ?_ p hp)
  intro q hq addr rt _ _ cfg hcfg
  have hfile : q.1 = none := by
    simp only [System.steps, cli, List.mem_singleton] at hq
    rw [hq]
  rw [hfile] at hcfg
  cases hcfg

/-- A spoke that is told another hub forgets it. -/
theorem second_connect_forgotten : ¬ ∀ c : CliCrates, c.RoundTrip → ∀ file (inv : Invocation),
    RemembersAddr c file inv (inv.main c file).2 := by
  intro h
  have hmain : (invoke (.connect (some "b:2") false none)).main sampleCli (some spokeFile) =
      (.ok (.dialing ⟨sampleIdentity 9, "borderless", "b:2", none, false⟩), some spokeFile) := by
    rw [Invocation.main, Prog.bind_of_ok (loadOrDefault_stored rfl fromToml_spokeFile)]
    rfl
  have hstored := h sampleCli sampleCli_roundTrip (some spokeFile) _ "b:2" _ rfl
    (congrArg Prod.fst hmain)
  rw [hmain] at hstored
  have haddr : storedAddr sampleCli.toConfigFormat (some spokeFile) = some "a:1" := by
    rw [storedAddr, onDisk, Option.bind_some, fromToml_spokeFile]
    rfl
  rw [haddr] at hstored
  exact absurd hstored (by decide)

end Example

/-! ## A rejected pin -/

section RejectedPin

variable {c : CliCrates} {env : CliEnv} {cfg : Config} {file file' : Option String}

/-- `ensure_role` fails as `save` does. -/
theorem ensureRole_failsWith (f : ConfigFormat) (env : SaveEnv) (cfg : Config) (want : RoleKind) :
    Prog.FailsWith CliError.IsConfig (ensureRole f env cfg want) := by
  unfold ensureRole
  split_ifs
  · exact (save_failsWith _ _ _).bind fun _ => .pure _
  · exact .pure _

/-- Resolving the address fails as `save` does, or there is no address. -/
theorem resolveServerAddr_failsWith (c : CliCrates) (env : CliEnv) (cfg : Config)
    (hostPort : Option String) :
    Prog.FailsWith CliError.IsConfig (resolveServerAddr c env cfg hostPort) := by
  unfold resolveServerAddr
  cases hostPort with
  | some h => exact (ensureRole_failsWith _ _ _ _).bind fun _ => .pure _
  | none =>
    cases cfg.client.serverAddr with
    | some s => exact .pure _
    | none => exact .throw trivial

/-- Saving a pin fails as `save` does. -/
theorem persistPin_failsWith (c : CliCrates) (env : CliEnv) (cfg : Config)
    (expected : Option String) :
    Prog.FailsWith CliError.IsConfig (persistPin c env cfg expected) := by
  unfold persistPin
  cases expected with
  | some p => exact (save_failsWith _ _ _).bind fun _ => .pure _
  | none => exact .pure _

/-- Before `bootstrap` a pin is not looked at. -/
theorem connectConfig_failsWith (c : CliCrates) (env : CliEnv) (cfg : Config)
    (hostPort pin : Option String) :
    Prog.FailsWith CliError.IsConfig (connectConfig c env cfg hostPort pin) := by
  refine (resolveServerAddr_failsWith _ _ _ _).bind fun resolved => ?_
  refine (persistPin_failsWith _ _ _ _).bind fun _ => ?_
  exact (ensureRole_failsWith _ _ _ _).bind fun _ => .pure _

/-- `bootstrap` rejects a pin because it does not parse. -/
theorem parsePubkey_of_rejected {addr p e : String} {pair : Bool}
    (h : bootstrapClient c env cfg addr (some p) pair file =
      (.error (.parseExpectedServerId e), file')) : parsePubkey c p = .error e := by
  have hother : ∀ {α : Type} {x : Except String α} {g : String → CliError} {t : Option String},
      (∀ e', g e' ≠ .parseExpectedServerId e) →
      (Prog.lift (x.mapError g) : Cli α) file ≠ (.error (.parseExpectedServerId e), t) := by
    intro α x g t hg hlift
    obtain ⟨e', -, he⟩ := Results.mapError_error (Prod.mk.inj hlift).1
    exact hg e' he
  rcases Prog.bind_error h with h | ⟨_, _, hlift, h⟩
  · exact absurd h (hother fun _ => by simp)
  obtain ⟨-, rfl⟩ := Prog.lift_ok_iff.1 hlift
  rcases Prog.bind_error h with h | ⟨_, _, hlift, h⟩
  · exact absurd h (hother fun _ => by simp)
  obtain ⟨-, rfl⟩ := Prog.lift_ok_iff.1 hlift
  rcases Prog.bind_error h with h | ⟨_, _, hlift, h⟩
  · exact absurd h (hother fun _ => by simp)
  obtain ⟨-, rfl⟩ := Prog.lift_ok_iff.1 hlift
  rcases Prog.bind_error h with h | ⟨_, _, -, h⟩
  · -- the pin is parsed
    rcases Prog.bind_error h with h | ⟨_, _, -, h⟩
    · obtain ⟨e', hparse, he⟩ := Results.mapError_error (Prod.mk.inj h).1
      rw [hparse, CliError.parseExpectedServerId.inj he]
    · cases h
  · cases h

/-- An invocation with a pin that is rejected has saved the pin. -/
theorem rejected_cases {inv : Invocation} {p e : String} (hpin : inv.pin = some p)
    (h : inv.main c file = (.error (.parseExpectedServerId e), file')) :
    parsePubkey c p = .error e ∧
      ∃ cfg, cfg.client.expectedServerId = some p ∧ Saved c.toConfigFormat cfg file' := by
  rcases Prog.bind_error h with h | ⟨cfg, file₁, -, h⟩
  · exact absurd (loadOrDefault_failsWith _ _ _ _ _ h) not_false
  unfold Invocation.pin at hpin
  cases hcommand : inv.command with
  | connect hostPort pair pin =>
    rw [hcommand] at hpin
    dsimp only at hpin
    simp only [hcommand, hpin] at h
    rcases Prog.bind_error h with h | ⟨⟨addr, expected, cfg'⟩, file₂, hconfig, h⟩
    · exact absurd (connectConfig_failsWith _ _ _ _ _ _ _ _ h) not_false
    obtain ⟨-, rfl, hclient, hsaved⟩ := connectConfig_ok hconfig
    rcases Prog.bind_error h with h | ⟨_, _, -, h⟩
    · have hfile : file' = file₂ := by
        have hkeeps := bootstrapClient_keeps (fun file => file = file₂) c inv.env cfg' addr
          ((some p).or cfg.client.expectedServerId) pair file₂ rfl
        rwa [h] at hkeeps
      refine ⟨parsePubkey_of_rejected h, cfg', by rw [hclient, Option.some_or], ?_⟩
      rw [hfile]
      rcases hsaved with ⟨-, hnone, -⟩ | ⟨-, hsaved⟩
      · exact absurd hnone (by simp)
      · exact hsaved
    · cases h
  | _ =>
    rw [hcommand] at hpin
    cases hpin

/-- A rejected pin. When an invocation fails because its pin is not 32 bytes of hex, the pin in
`config.toml` is the same as before if and only if it was this pin already. Otherwise the rejected
pin is stored, and in either case the next `connect` without a pin does not get as far as
dialing. -/
theorem rejected_pin_stored_iff (c : CliCrates) (hf : c.RoundTrip) (inv : Invocation)
    (file : Option String) (p e : String) (hpin : inv.pin = some p)
    (hfail : (inv.main c file).1 = .error (.parseExpectedServerId e)) :
    (storedPin c.toConfigFormat (inv.main c file).2 = storedPin c.toConfigFormat file ↔
        storedPin c.toConfigFormat file = some p) ∧
      ∀ (next : Invocation) rt, next.pin = none → ¬ next.Dials c (inv.main c file).2 rt := by
  have hmain : inv.main c file = (.error (.parseExpectedServerId e), (inv.main c file).2) :=
    Prod.ext hfail rfl
  obtain ⟨hparse, cfg, hcfg, hsaved⟩ := rejected_cases hpin hmain
  constructor
  · unfold storedPin
    rw [hsaved.onDisk hf, Option.bind_some, hcfg]
    exact eq_comm
  · intro next rt hnext hdials
    obtain ⟨cfg', file₁, -, hload, -, -, -, hkey⟩ := dials_cases hdials
    obtain ⟨raw, hraw, hfile⟩ := hsaved
    rw [hfile] at hload
    rcases loadOrDefault_ok hload with ⟨raw', hsome, hfrom, -⟩ | ⟨hnone, -⟩
    · obtain rfl := Option.some.inj hsome
      obtain rfl := Except.ok.inj ((hf cfg raw hraw).symm.trans hfrom)
      obtain ⟨key, hkey⟩ := hkey p (by rw [hnext, Option.none_or, hcfg])
      rw [hparse] at hkey
      cases hkey
    · cases hnone

end RejectedPin

section Example

/-- The spoke is given a pin that is no key. -/
def mistypedPin : Invocation := invoke (.connect none false (some "zz"))

/-- The pin is stored, and then rejected. -/
theorem main_mistypedPin : mistypedPin.main sampleCli (some spokeFile) =
    (.error (.parseExpectedServerId "hex decode"),
      some (configText (spokeConfig "a:1" (some "zz")))) := by
  rw [Invocation.main, Prog.bind_of_ok (loadOrDefault_stored rfl fromToml_spokeFile)]
  rfl

/-- The stored pin is another one than before, and the spoke does not dial any more. -/
theorem mistypedPin_stays : storedPin sampleCli.toConfigFormat (some spokeFile) = none ∧
    storedPin sampleCli.toConfigFormat (mistypedPin.main sampleCli (some spokeFile)).2 ≠
      storedPin sampleCli.toConfigFormat (some spokeFile) ∧
    ¬ ∃ rt, (invoke (.connect none false none)).Dials sampleCli
      (mistypedPin.main sampleCli (some spokeFile)).2 rt := by
  have hnone : storedPin sampleCli.toConfigFormat (some spokeFile) = none := by
    rw [storedPin, onDisk, Option.bind_some, fromToml_spokeFile]
    rfl
  obtain ⟨hiff, hnext⟩ := rejected_pin_stored_iff sampleCli sampleCli_roundTrip mistypedPin
    (some spokeFile) "zz" "hex decode" rfl (congrArg Prod.fst main_mistypedPin)
  refine ⟨hnone, fun hsame => ?_, ?_⟩
  · have hpin := hiff.1 hsame
    rw [hnone] at hpin
    cases hpin
  · rintro ⟨rt, hdials⟩
    exact hnext _ rt rfl hdials

/-- A rejected pin is not left out of the file. -/
theorem rejected_pin_stays : ¬ ∀ c : CliCrates, c.RoundTrip → ∀ file (inv : Invocation) p e,
    inv.pin = some p → (inv.main c file).1 = .error (.parseExpectedServerId e) →
      storedPin c.toConfigFormat (inv.main c file).2 = storedPin c.toConfigFormat file := by
  intro h
  have hsame := h sampleCli sampleCli_roundTrip (some spokeFile) mistypedPin "zz" "hex decode" rfl
    (congrArg Prod.fst main_mistypedPin)
  have hsaved : onDisk sampleCli.toConfigFormat (some (configText (spokeConfig "a:1" (some "zz")))) =
      some (spokeConfig "a:1" (some "zz")) := by
    refine Saved.onDisk sampleCli_roundTrip ⟨_, ?_, rfl⟩
    decide +kernel
  rw [main_mistypedPin, storedPin, storedPin, hsaved, onDisk, Option.bind_some, Option.bind_some,
    fromToml_spokeFile] at hsame
  cases hsame

end Example

end Borderless.Runtime
