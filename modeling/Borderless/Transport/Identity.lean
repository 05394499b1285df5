import Borderless.Lib.Simulation
import Borderless.Transport.Handshake

/-!
# The identity of a node on disk

`load_or_generate`, `load` and `save` of `crates/transport/src/identity.rs`: a node makes its key on
its first run and writes it to a file, the secret key and after it the public key. Later runs read
the first 32 bytes of the file.

A save can fail with a part of the bytes written. `identity_stable` says what the runs of a node
make of this: a key that was returned once is the only one that is ever returned, and a file that is
too short for a key stays as it is. This is for a system that tells whether the file is there.
-/

namespace Borderless.Transport

open Transition

/-- The functions of the Ed25519 crate on a secret key. -/
structure Ed25519 where
  /-- `SigningKey::verifying_key`. -/
  verifyingKey : Bytes 32 → Bytes 32
  /-- `SigningKey::sign`. -/
  sign : Bytes 32 → List UInt8 → Bytes 64

/-- The identity with a secret key. -/
def Ed25519.identity (k : Ed25519) (secret : Bytes 32) : Identity :=
  ⟨k.verifyingKey secret, k.sign secret⟩

/-- What the file of a secret key holds. -/
def Ed25519.fileBytes (k : Ed25519) (secret : Bytes 32) : List UInt8 :=
  secret.toList ++ (k.verifyingKey secret).toList

/-- How the system answers a call of `Identity::load_or_generate`. -/
structure IdentityEnv where
  /-- `Path::exists`. -/
  pathExists : Bool
  /-- The error of `fs::read` where there is no file. -/
  notFound : String
  /-- `fs::read` of a file. -/
  read : Except String Unit
  /-- The bytes of `OsRng`. -/
  random : Bytes 32
  /-- `fs::create_dir_all`. -/
  createDirAll : Except String Unit
  /-- `fs::write`, and what a failed one leaves in the file. -/
  write : Except (String × Option (List UInt8)) Unit
  /-- `fs::metadata`. -/
  metadata : Except String Unit
  /-- `fs::set_permissions`. -/
  setPermissions : Except String Unit

/-- A program on the file of the identity. -/
abbrev OnKeyFile (α : Type) := Prog Error (Option (List UInt8)) α

/-- `Identity::load`: the identity whose secret key is the first 32 bytes of the file. -/
def Identity.load (k : Ed25519) (env : IdentityEnv) : OnKeyFile Identity := do
  match ← Prog.get with
  | none => Prog.throw (.io env.notFound)
  | some bytes =>
    Prog.lift (env.read.mapError .io)
    if h : bytes.length < 32 then Prog.throw (.identity "identity file too short")
    else pure (k.identity ⟨bytes.take 32, List.length_take_of_le (not_lt.1 h)⟩)

/-- `Identity::save`, for the identity with this secret key. -/
def Identity.save (k : Ed25519) (env : IdentityEnv) (secret : Bytes 32) : OnKeyFile Unit := do
  Prog.lift (env.createDirAll.mapError .io)
  match env.write with
  | .error (e, left) =>
    Prog.set left
    Prog.throw (.io e)
  | .ok () =>
    Prog.set (some (k.fileBytes secret))
    -- the file is written by now
    Prog.lift (env.metadata.mapError .io)
    Prog.lift (env.setPermissions.mapError .io)

/-- `Identity::load_or_generate`: the identity of the file, or without a file a new one, which is
saved. -/
def Identity.loadOrGenerate (k : Ed25519) (env : IdentityEnv) : OnKeyFile Identity :=
  if env.pathExists then Identity.load k env
  else do
    Identity.save k env env.random
    pure (k.identity env.random)

/-- The runs of a node, one after the other, with the file of its identity as the state. -/
def identityFile (k : Ed25519) : System (Option (List UInt8)) IdentityEnv where
  init _ := True
  step file env := some (Identity.loadOrGenerate k env file).2

/-! ## What a run does -/

/-- The identity that a file holds. -/
def storedIdentity (k : Ed25519) (file : Option (List UInt8)) : Option Identity :=
  file.bind fun bytes =>
    if h : bytes.length < 32 then none
    else some (k.identity ⟨bytes.take 32, List.length_take_of_le (not_lt.1 h)⟩)

/-- The system tells whether there is a file, and a write that fails leaves the file as it was, or a
part of the bytes in it. The first is an assumption: `Path::exists` answers `false` when it fails, and
the key in a file that is not seen is overwritten. -/
structure IdentityEnv.Sound (k : Ed25519) (file : Option (List UInt8)) (env : IdentityEnv) :
    Prop where
  /-- Whether there is a file. -/
  pathExists : env.pathExists = file.isSome
  /-- What a failed write leaves. -/
  write : ∀ e left, env.write = .error (e, left) →
    left = file ∨ ∃ part, part <+: k.fileBytes env.random ∧ left = some part

section Runs

variable {k : Ed25519} {env : IdentityEnv} {file : Option (List UInt8)} {bytes : List UInt8}

/-- The identity of a key file that is long enough. -/
theorem storedIdentity_some (k : Ed25519) (h : 32 ≤ bytes.length) :
    storedIdentity k (some bytes) = some (k.identity ⟨bytes.take 32, List.length_take_of_le h⟩) := by
  unfold storedIdentity
  rw [Option.bind_some, dif_neg (not_lt.2 h)]

/-- The file of a key holds the identity of the key. -/
theorem storedIdentity_fileBytes (k : Ed25519) (secret : Bytes 32) :
    storedIdentity k (some (k.fileBytes secret)) = some (k.identity secret) := by
  have htake : (k.fileBytes secret).take 32 = secret.toList := by
    unfold Ed25519.fileBytes
    rw [List.take_append_of_le_length (by rw [secret.toList_length]), List.take_of_length_le]
    rw [secret.toList_length]
  have hlen : 32 ≤ (k.fileBytes secret).length := by
    unfold Ed25519.fileBytes
    rw [List.length_append, secret.toList_length]
    omega
  rw [storedIdentity_some k hlen]
  congr 2
  exact Subtype.ext htake

/-- A part of the file of a key that is long enough for a key holds its identity. -/
theorem storedIdentity_of_part {secret : Bytes 32} {part : List UInt8} {id : Identity}
    (hpart : part <+: k.fileBytes secret) (h : storedIdentity k (some part) = some id) :
    id = k.identity secret := by
  by_cases hlen : 32 ≤ part.length
  · have hwhole : 32 ≤ (k.fileBytes secret).length := hlen.trans hpart.length_le
    have htake : part.take 32 = (k.fileBytes secret).take 32 := by
      rw [List.prefix_iff_eq_take.1 hpart, List.take_take, min_eq_left hlen]
    have hsame := storedIdentity_fileBytes k secret
    rw [storedIdentity_some k hwhole] at hsame
    rw [storedIdentity_some k hlen] at h
    simp only [htake] at h
    exact Option.some.inj (h.symm.trans hsame)
  · unfold storedIdentity at h
    rw [Option.bind_some, dif_pos (not_le.1 hlen)] at h
    cases h

/-- Loading leaves the file as it is. It gives the identity that the file holds, or it fails because
of the system, or because the file holds none. -/
theorem load_some (k : Ed25519) (env : IdentityEnv) (bytes : List UInt8) :
    (Identity.load k env (some bytes)).2 = some bytes ∧
      ((∃ id, (Identity.load k env (some bytes)).1 = .ok id ∧
          storedIdentity k (some bytes) = some id) ∨
        (∃ text, (Identity.load k env (some bytes)).1 = .error (.io text)) ∨
        storedIdentity k (some bytes) = none ∧
          (Identity.load k env (some bytes)).1 = .error (.identity "identity file too short")) := by
  have hget : (Prog.get : OnKeyFile (Option (List UInt8))) (some bytes) =
      (.ok (some bytes), some bytes) := rfl
  unfold Identity.load
  rw [Prog.bind_of_ok hget]
  cases hread : env.read with
  | error e => exact ⟨rfl, .inr (.inl ⟨e, rfl⟩)⟩
  | ok _ =>
    have hlift : (Prog.lift ((Except.ok () : Except String Unit).mapError Error.io) : OnKeyFile Unit)
        (some bytes) = (.ok (), some bytes) := rfl
    dsimp only
    rw [Prog.bind_of_ok hlift]
    unfold storedIdentity
    rw [Option.bind_some]
    split_ifs with hshort
    · exact ⟨rfl, .inr (.inr ⟨rfl, rfl⟩)⟩
    · exact ⟨rfl, .inl ⟨_, rfl, rfl⟩⟩

/-- After a save the file is the one of the key, or it is what a failed write leaves. -/
theorem save_file (k : Ed25519) (env : IdentityEnv) (secret : Bytes 32) (file : Option (List UInt8)) :
    (Identity.save k env secret file).2 = some (k.fileBytes secret) ∨
      (∃ e, (Identity.save k env secret file).1 = .error e) ∧
        ((Identity.save k env secret file).2 = file ∨
          ∃ e left, env.write = .error (e, left) ∧ (Identity.save k env secret file).2 = left) := by
  unfold Identity.save
  cases hdir : env.createDirAll with
  | error e => exact .inr ⟨⟨.io e, rfl⟩, .inl rfl⟩
  | ok _ =>
    cases hwrite : env.write with
    | error w => exact .inr ⟨⟨.io w.1, rfl⟩, .inr ⟨w.1, w.2, rfl, rfl⟩⟩
    | ok _ =>
      left
      cases hmeta : env.metadata with
      | error e => rfl
      | ok _ => rfl

/-- What a run gives is in the file after it; a file that is there stays as it is, and if it holds no
identity the run fails; and where there is none, an identity in the file is the new one. -/
theorem loadOrGenerate_sound (h : env.Sound k file) :
    (∀ id, (Identity.loadOrGenerate k env file).1 = .ok id →
      storedIdentity k (Identity.loadOrGenerate k env file).2 = some id) ∧
    (file.isSome → (Identity.loadOrGenerate k env file).2 = file ∧ (storedIdentity k file = none →
      ∃ e, (Identity.loadOrGenerate k env file).1 = .error e ∧
        (e = .identity "identity file too short" ∨ ∃ text, e = .io text))) ∧
    (file = none → ∀ id, storedIdentity k (Identity.loadOrGenerate k env file).2 = some id →
      id = k.identity env.random) := by
  unfold Identity.loadOrGenerate
  rw [h.pathExists]
  cases file with
  | some bytes =>
    obtain ⟨hfile, hresult⟩ := load_some k env bytes
    rw [Option.isSome_some, if_pos rfl]
    refine ⟨?_, fun _ => ⟨hfile, ?_⟩, fun hnone => nomatch hnone⟩
    · intro id hid
      rw [hfile]
      obtain ⟨id', hid', hstored⟩ | ⟨text, herror⟩ | ⟨-, herror⟩ := hresult
      · rw [hstored, ← Except.ok.inj (hid.symm.trans hid')]
      · cases hid.symm.trans herror
      · cases hid.symm.trans herror
    · intro hnone
      obtain ⟨id', -, hstored⟩ | ⟨text, herror⟩ | ⟨-, herror⟩ := hresult
      · cases hnone.symm.trans hstored
      · exact ⟨_, herror, .inr ⟨text, rfl⟩⟩
      · exact ⟨_, herror, .inl rfl⟩
  | none =>
    rw [Option.isSome_none, if_neg Bool.false_ne_true, Prog.bind_pure_snd]
    refine ⟨?_, nofun, fun _ => ?_⟩
    · intro id hid
      obtain ⟨_, t, hsave, hpure⟩ := Prog.bind_ok_iff.1 (Prod.ext hid rfl)
      obtain ⟨rfl, -⟩ := Prog.pure_ok_iff.1 hpure
      obtain hwritten | ⟨⟨e, herror⟩, -⟩ := save_file k env env.random none
      · rw [hwritten, storedIdentity_fileBytes]
      · rw [hsave] at herror
        cases herror
    · intro id hid
      obtain hwritten | ⟨-, hsame | ⟨e, left, hwrite, hleft⟩⟩ := save_file k env env.random none
      · rw [hwritten, storedIdentity_fileBytes] at hid
        exact (Option.some.inj hid).symm
      · rw [hsame] at hid
        cases hid
      · rw [hleft] at hid
        obtain rfl | ⟨part, hpart, rfl⟩ := h.write e left hwrite
        · cases hid
        · exact storedIdentity_of_part hpart hid

/-- A file that is there is never changed. -/
theorem run_identityFile {last : Option (List UInt8)} {envs : List IdentityEnv}
    (hfile : file.isSome) (hsound : ∀ p ∈ (identityFile k).steps file envs, p.2.1.Sound k p.1)
    (hrun : (identityFile k).run file envs = some last) : last = file := by
  refine System.run_invariant (I := fun t => t = file) (P := fun t env => env.Sound k t)
    ?_ rfl hsound hrun
  rintro t env u rfl henv hstep
  rw [← Option.some.inj hstep]
  exact ((loadOrGenerate_sound henv).2.1 hfile).1

/-- The identity of a node over all its runs, in which `Path::exists` answers whether the file is
there, and any other call of the system can fail. Every run that succeeds gives the same identity,
the one that the file holds in the end. A file that is there is never changed, and as long as it is
too short for a key every run fails. And where there was no file at first, the identity is of a key
that one of the runs has made. -/
theorem identity_stable (k : Ed25519) (file last : Option (List UInt8)) (envs : List IdentityEnv)
    (hsound : ∀ p ∈ (identityFile k).steps file envs, p.2.1.Sound k p.1)
    (hrun : (identityFile k).run file envs = some last) :
    (∀ p ∈ (identityFile k).steps file envs,
      (∀ id, (Identity.loadOrGenerate k p.2.1 p.1).1 = .ok id → storedIdentity k last = some id) ∧
      (p.1.isSome → p.1 = last ∧ (storedIdentity k last = none →
        ∃ e, (Identity.loadOrGenerate k p.2.1 p.1).1 = .error e ∧
          (e = .identity "identity file too short" ∨ ∃ text, e = .io text)))) ∧
    (file = none → ∀ id, storedIdentity k last = some id →
      ∃ env ∈ envs, id = k.identity env.random) := by
  constructor
  · intro p hp
    have hstep : (Identity.loadOrGenerate k p.2.1 p.1).2 = p.2.2 :=
      Option.some.inj (System.step_of_mem_steps hp)
    obtain ⟨hok, hkept, -⟩ := loadOrGenerate_sound (hsound p hp)
    obtain ⟨rest, hrest, hmem⟩ := System.rest_of_mem_steps hp hrun
    have hlast : p.2.2.isSome → last = p.2.2 := fun hsome =>
      run_identityFile hsome (fun q hq => hsound q (hmem q hq)) hrest
    constructor
    · intro id hid
      have hstored : storedIdentity k p.2.2 = some id := hstep ▸ hok id hid
      have hsome : p.2.2.isSome := by
        cases hfile : p.2.2 with
        | some bytes => rfl
        | none =>
          rw [hfile] at hstored
          cases hstored
      rw [hlast hsome]
      exact hstored
    · intro hsome
      obtain ⟨hsame, hfails⟩ := hkept hsome
      have hfile : p.2.2 = p.1 := hstep.symm.trans hsame
      have hend : last = p.1 := (hlast (hfile.symm ▸ hsome)).trans hfile
      exact ⟨hend.symm, fun hnone => hfails (hend ▸ hnone)⟩
  · rintro rfl
    refine System.run_invariant (P := fun t env => env.Sound k t ∧ env ∈ envs)
      (I := fun t => ∀ id, storedIdentity k t = some id → ∃ env ∈ envs, id = k.identity env.random)
      ?_ ?_ ?_ hrun
    · rintro t env u ht ⟨henv, hmem⟩ hstep id hid
      rw [← Option.some.inj hstep] at hid
      cases t with
      | none => exact ⟨env, hmem, (loadOrGenerate_sound henv).2.2 rfl id hid⟩
      | some bytes =>
        rw [((loadOrGenerate_sound henv).2.1 rfl).1] at hid
        exact ht id hid
    · intro id hid
      cases hid
    · exact fun p hp => ⟨hsound p hp, System.label_mem_of_mem_steps hp⟩

end Runs

section Example

/-- Keys without Ed25519: the public key is the secret one. -/
def plainKeys : Ed25519 := ⟨id, sampleSign⟩

/-- A call with this random key, whose write is answered like this. -/
def keyCall (pathExists : Bool) (b : UInt8) (write : Except (String × Option (List UInt8)) Unit) :
    IdentityEnv :=
  ⟨pathExists, "not found", .ok (), .replicate 32 b, .ok (), write, .ok (), .ok ()⟩

/-- A first run whose disk is full after 40 bytes, and two more. -/
def fullDiskRuns : List IdentityEnv :=
  [keyCall false 1 (.error ("no space left", some (List.replicate 40 1))), keyCall true 2 (.ok ()),
    keyCall true 3 (.ok ())]

/-- The later runs load the key of the failed one. -/
theorem identity_stable_fullDiskRuns :
    (Identity.loadOrGenerate plainKeys (keyCall true 3 (.ok ())) (some (List.replicate 40 1))).1 =
        .ok (plainKeys.identity (.replicate 32 1)) ∧
      ∃ env ∈ fullDiskRuns, plainKeys.identity (.replicate 32 1) = plainKeys.identity env.random := by
  have hpart : List.replicate 40 (1 : UInt8) <+: plainKeys.fileBytes (.replicate 32 1) := by decide
  have hsteps : (identityFile plainKeys).steps none fullDiskRuns =
      [(none, keyCall false 1 (.error ("no space left", some (List.replicate 40 1))),
          some (List.replicate 40 1)),
        (some (List.replicate 40 1), keyCall true 2 (.ok ()), some (List.replicate 40 1)),
        (some (List.replicate 40 1), keyCall true 3 (.ok ()), some (List.replicate 40 1))] := rfl
  have hstable := identity_stable plainKeys none (some (List.replicate 40 1)) fullDiskRuns (by
    rw [hsteps]
    simp only [List.forall_mem_cons, List.not_mem_nil, false_imp_iff, implies_true, and_true]
    refine ⟨⟨rfl, fun e left hwrite => ?_⟩, ⟨rfl, fun e left hwrite => ?_⟩,
      ⟨rfl, fun e left hwrite => ?_⟩⟩
    · obtain ⟨-, rfl⟩ := Prod.mk.inj (Except.error.inj hwrite)
      exact .inr ⟨_, hpart, rfl⟩
    · cases hwrite
    · cases hwrite) rfl
  exact ⟨rfl, hstable.2 rfl _ rfl⟩

end Example

end Borderless.Transport
