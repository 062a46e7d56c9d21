import Mathlib.Data.List.Perm.Basic
import Irip.Base.Run
import Irip.Secrets.Crypto

/-!
# `Secrets.Rotation` — what becomes of secrets when the master key is rotated

A process keeps one instance of the cipher, built from the environment when it is first asked for. A rotation puts a new
key into the environment, keeps the earlier ones under their numbered names, and has the instance built again.
-/

namespace Irip.Secrets

open Runs Base64

/-! ## The store -/

/-- A row of the table of secrets. -/
structure Secret where
  id : Uuid
  departmentId : Nat
  kind : String
  value : String

/-- A process with its environment and its store. `encrypted` has every text that `encrypt` returned, with its
plaintext, and `created` every value given to `create`, by the id that was answered. -/
structure State where
  env : Env
  singleton : Option EnvelopeCrypto := none
  secrets : List Secret := []
  encrypted : List (String × String) := []
  created : List (Uuid × String) := []

/-- `EnvelopeCrypto.from_env`: the instance, if there is one. -/
def fromEnv (s : State) : Except Raised EnvelopeCrypto :=
  match s.singleton with
  | some crypto => .ok crypto
  | none => build s.env

/-- `EnvelopeCrypto.from_env().decrypt(text)`. -/
def decryptNow (aead : Aead) (s : State) (encrypted : String) : Except Raised String :=
  match fromEnv s with
  | .error e => .error e
  | .ok crypto => (decrypt aead crypto encrypted).mapError .value

/-- `SecretStore.get`, in a session that shows the rows with `sees`. -/
def get (aead : Aead) (s : State) (sees : Secret → Bool) (id : Uuid) : Except Raised String :=
  match s.secrets.find? (fun secret => secret.id == id && sees secret) with
  | none =>
    .error (.app { code := "secret_not_found", message := "密钥不存在或无权访问", fields := [("secret_id", .str id)] })
  | some secret =>
    match fromEnv s with
    | .error e => .error e
    | .ok crypto =>
      match decrypt aead crypto secret.value with
      | .ok plaintext => .ok plaintext
      -- a text that does not open is taken for a value from before the encryption
      | .error _ => .ok secret.value

/-- `SecretStore.create`, with the nonce and the id that are drawn: the row that is inserted. -/
def create (aead : Aead) (s : State) (dept : Nat) (nonce : Nonce) (id : Uuid) (kind value : String) :
    Except Raised Secret :=
  if value = "" then .error (.app { code := "validation_failed", message := "凭据值不能为空" })
  else
    match fromEnv s with
    | .error e => .error e
    | .ok crypto =>
      match encrypt aead crypto nonce value with
      | .error e => .error e
      | .ok encrypted =>
        if s.secrets.any (fun secret => secret.id == id) then .error .integrity
        else .ok { id := id, departmentId := dept, kind := kind, value := encrypted }

/-! ## The system -/

/-- The old keys that an environment names, as far as they are numbered without a gap. -/
def keptKeys (env : Env) : List Nat → List String
  | [] => []
  | version :: versions =>
    match readSecret env (oldKeyName version) with
    | .ok (some raw) => raw :: keptKeys env versions
    | _ => []

/-- A rotation as it is documented: another key is set, the one before it joins the old keys, and the instance can be
built. -/
def documented (env env' : Env) : Bool :=
  match readSecret env masterKeyName, readSecret env' masterKeyName with
  | .ok (some raw), .ok (some _) =>
    (build env').isOk && (keptKeys env' oldVersions).isPerm (raw :: keptKeys env oldVersions)
  | _, _ => false

inductive Action where
  | encrypt (nonce : Nonce) (plaintext : String)
  | create (dept : Nat) (nonce : Nonce) (id : Uuid) (kind value : String)
  /-- Somebody decrypts a text or reads a secret. -/
  | read
  | rotate (env' : Env)
  | restart

/-- The instance after `from_env` was called. -/
def State.load (s : State) : State :=
  match fromEnv s with
  | .error _ => s
  | .ok crypto => { s with singleton := some crypto }

/-- A call that raises leaves the rows as they are. -/
def step (aead : Aead) (s : State) : Action → Option State
  | .encrypt nonce plaintext =>
    match fromEnv s with
    | .error _ => some s
    | .ok crypto =>
      match encrypt aead crypto nonce plaintext with
      | .error _ => some s.load
      | .ok encrypted => some { s.load with encrypted := (encrypted, plaintext) :: s.encrypted }
  | .create dept nonce id kind value =>
    match create aead s dept nonce id kind value with
    | .error _ => some s.load
    | .ok secret =>
      some { s.load with secrets := s.secrets ++ [secret], encrypted := (secret.value, value) :: s.encrypted,
                         created := (id, value) :: s.created }
  | .read => some s.load
  | .rotate env' => if documented s.env env' then some { s with env := env', singleton := none } else none
  | .restart => some { s with singleton := none }

/-! ## What is to hold -/

/-- Every text that was returned opens to its plaintext, and a secret that can be read has the value it was created
with. -/
structure Survives (aead : Aead) (s : State) : Prop where
  opens : ∀ entry ∈ s.encrypted, decryptNow aead s entry.1 = .ok entry.2
  secrets : ∀ entry ∈ s.created, ∀ (sees : Secret → Bool) (value : String),
    get aead s sees entry.1 = .ok value → value = entry.2

/-- A process that can build its instance and has encrypted nothing yet. -/
structure Fresh (s : State) : Prop where
  builds : ∃ crypto, build s.env = .ok crypto
  singleton : s.singleton = none
  secrets : s.secrets = []
  encrypted : s.encrypted = []
  created : s.created = []

/-- A rotation comes before anything was encrypted, or sets the key that was set already. -/
def KeepsKey (t : Transition State Action) : Prop :=
  match t.act with
  | .rotate env' => t.pre.encrypted = [] ∨ masterKey env' = masterKey t.pre.env
  | _ => True

/-- What was encrypted is under the key of the environment, and the rows have what was encrypted for them. -/
structure Sealed (aead : Aead) (s : State) (crypto : EnvelopeCrypto) : Prop where
  builds : build s.env = .ok crypto
  singleton : ∀ instance', s.singleton = some instance' → instance' = crypto
  encrypted : ∀ entry ∈ s.encrypted, ∃ nonce, entry.1 = sealText aead crypto.currentKey nonce entry.2
  rows : ∀ secret ∈ s.secrets, ∀ entry ∈ s.created, secret.id = entry.1 → (secret.value, entry.2) ∈ s.encrypted
  created : ∀ entry ∈ s.created, ∃ secret ∈ s.secrets, secret.id = entry.1

/-! ## Single steps -/

section Steps

variable {aead : Aead} {s s' : State} {crypto : EnvelopeCrypto}

theorem currentVersion_of_build {env : Env} (h : build env = .ok crypto) : crypto.currentVersion = 0 := by
  obtain ⟨older, -, -, hcrypto⟩ := build_ok_iff.mp h
  rw [hcrypto]

theorem Sealed.fromEnv_eq (h : Sealed aead s crypto) : fromEnv s = .ok crypto := by
  unfold fromEnv
  cases hone : s.singleton with
  | none => exact h.builds
  | some instance' => rw [h.singleton instance' hone]

theorem Sealed.load_eq (h : Sealed aead s crypto) : s.load = { s with singleton := some crypto } := by
  rw [State.load, h.fromEnv_eq]

theorem Sealed.load (h : Sealed aead s crypto) : Sealed aead s.load crypto := by
  rw [h.load_eq]
  exact ⟨h.builds, fun instance' hone => (Option.some.inj hone).symm, h.encrypted, h.rows, h.created⟩

theorem Sealed.survives (ha : aead.Authenticated) (h : Sealed aead s crypto) : Survives aead s := by
  have hversion := currentVersion_of_build h.builds
  have hopens : ∀ entry ∈ s.encrypted, decrypt aead crypto entry.1 = .ok entry.2 := by
    intro entry hentry
    obtain ⟨nonce, htext⟩ := h.encrypted entry hentry
    rw [htext]
    exact (decrypt_sealText_iff ha hversion _ nonce entry.2).mpr rfl
  constructor
  · intro entry hentry
    rw [decryptNow, h.fromEnv_eq]
    simp only [hopens entry hentry]
    rfl
  · intro entry hentry sees value hget
    unfold get at hget
    split at hget
    · cases hget
    · next secret hfind =>
        have hid : secret.id = entry.1 := by
          have hfound := List.find?_some hfind
          rw [Bool.and_eq_true, beq_iff_eq] at hfound
          exact hfound.1
        have hrow := h.rows secret (List.mem_of_find?_eq_some hfind) entry hentry hid
        rw [h.fromEnv_eq] at hget
        simp only [hopens _ hrow] at hget
        exact (Except.ok.inj hget).symm

theorem encrypt_ok_iff {env : Env} (h : build env = .ok crypto) {nonce : Nonce} {plaintext encrypted : String} :
    encrypt aead crypto nonce plaintext = .ok encrypted ↔
      plaintext ≠ "" ∧ encrypted = sealText aead crypto.currentKey nonce plaintext := by
  unfold encrypt sealText
  rw [currentVersion_of_build h]
  split
  · next hempty => simp [hempty]
  · next hempty => simp [hempty, @eq_comm _ encrypted]

theorem Sealed.encrypted_cons (h : Sealed aead s crypto) (nonce : Nonce) (plaintext : String) :
    Sealed aead { s.load with
      encrypted := (sealText aead crypto.currentKey nonce plaintext, plaintext) :: s.encrypted } crypto := by
  rw [h.load_eq]
  refine ⟨h.builds, fun instance' hone => (Option.some.inj hone).symm, ?_, ?_, h.created⟩
  · intro entry hentry
    rcases List.mem_cons.mp hentry with rfl | hold
    · exact ⟨nonce, rfl⟩
    · exact h.encrypted entry hold
  · intro secret hsecret entry hentry hid
    exact List.mem_cons_of_mem _ (h.rows secret hsecret entry hentry hid)

theorem Sealed.created_cons (h : Sealed aead s crypto) {dept : Nat} {nonce : Nonce} {id : Uuid} {kind value : String}
    {secret : Secret} (hcreate : create aead s dept nonce id kind value = .ok secret) :
    Sealed aead { s.load with secrets := s.secrets ++ [secret], encrypted := (secret.value, value) :: s.encrypted,
                              created := (id, value) :: s.created } crypto := by
  have hdone : secret = ⟨id, dept, kind, sealText aead crypto.currentKey nonce value⟩ ∧
      ∀ other ∈ s.secrets, other.id ≠ id := by
    unfold create at hcreate
    rw [h.fromEnv_eq] at hcreate
    split at hcreate
    · cases hcreate
    · dsimp only at hcreate
      split at hcreate
      · cases hcreate
      · next encrypted hencrypt =>
          split at hcreate
          · cases hcreate
          · next hnew =>
              rw [((encrypt_ok_iff h.builds).mp hencrypt).2] at hcreate
              refine ⟨(Except.ok.inj hcreate).symm, fun other hother heq => hnew ?_⟩
              exact List.any_eq_true.mpr ⟨other, hother, beq_iff_eq.mpr heq⟩
  obtain ⟨rfl, hnew⟩ := hdone
  rw [h.load_eq]
  refine ⟨h.builds, fun instance' hone => (Option.some.inj hone).symm, ?_, ?_, ?_⟩
  · intro entry hentry
    rcases List.mem_cons.mp hentry with rfl | hold
    · exact ⟨nonce, rfl⟩
    · exact h.encrypted entry hold
  · intro row hrow entry hentry hid
    rcases List.mem_append.mp hrow with hrow | hrow <;> rcases List.mem_cons.mp hentry with rfl | hentry
    · exact absurd hid (hnew row hrow)
    · exact List.mem_cons_of_mem _ (h.rows row hrow entry hentry hid)
    · rw [List.mem_singleton.mp hrow]
      exact List.mem_cons_self
    · -- an entry from before belongs to a row from before
      rw [List.mem_singleton.mp hrow] at hid
      obtain ⟨other, hother, hsame⟩ := h.created entry hentry
      exact absurd (hsame.trans hid.symm) (hnew other hother)
  · intro entry hentry
    rcases List.mem_cons.mp hentry with rfl | hentry
    · exact ⟨_, List.mem_append_right _ (List.mem_singleton.mpr rfl), rfl⟩
    · obtain ⟨other, hother, hsame⟩ := h.created entry hentry
      exact ⟨other, List.mem_append_left _ hother, hsame⟩

theorem Sealed.restart (h : Sealed aead s crypto) : Sealed aead { s with singleton := none } crypto :=
  ⟨h.builds, fun _ hone => absurd hone (by simp), h.encrypted, h.rows, h.created⟩

theorem builds_of_documented {env env' : Env} (h : documented env env' = true) :
    ∃ crypto', build env' = .ok crypto' := by
  unfold documented at h
  split at h
  · cases hbuild : build env' with
    | error e =>
      rw [hbuild] at h
      cases h
    | ok crypto' => exact ⟨crypto', rfl⟩
  · cases h

theorem masterKey_of_build {env : Env} (h : build env = .ok crypto) : masterKey env = .ok crypto.currentKey := by
  obtain ⟨-, hkey, -⟩ := build_ok_iff.mp h
  exact hkey

theorem step_rotate {env' : Env} (hdoc : documented s.env env' = true) :
    step aead s (.rotate env') = some { s with env := env', singleton := none } := if_pos hdoc

/-- A rotation is survived where it keeps the key or comes first. -/
theorem Sealed.rotate (ha : aead.Authenticated) (h : Sealed aead s crypto) {env' : Env}
    (hdoc : documented s.env env' = true) :
    (Survives aead { s with env := env', singleton := none } ↔
      s.encrypted = [] ∨ masterKey env' = masterKey s.env) ∧
    ((s.encrypted = [] ∨ masterKey env' = masterKey s.env) →
      ∃ crypto', Sealed aead { s with env := env', singleton := none } crypto') := by
  obtain ⟨crypto', hbuild⟩ := builds_of_documented hdoc
  have hkeys : masterKey env' = masterKey s.env ↔ crypto'.currentKey = crypto.currentKey := by
    rw [masterKey_of_build hbuild, masterKey_of_build h.builds]
    exact ⟨Except.ok.inj, congrArg Except.ok⟩
  have hsealed : s.encrypted = [] ∨ masterKey env' = masterKey s.env →
      Sealed aead { s with env := env', singleton := none } crypto' := by
    rintro hcase
    refine ⟨hbuild, fun _ hone => absurd hone (by simp), ?_, h.rows, h.created⟩
    intro entry hentry
    rcases hcase with hnone | hsame
    · exact absurd (hnone ▸ hentry) List.not_mem_nil
    · rw [hkeys.mp hsame]
      exact h.encrypted entry hentry
  refine ⟨⟨fun hsurvives => ?_, fun hcase => (hsealed hcase).survives ha⟩, fun hcase => ⟨crypto', hsealed hcase⟩⟩
  cases htexts : s.encrypted with
  | nil => exact .inl rfl
  | cons entry rest =>
    right
    -- a text from before opens under the new key only if that is the old one
    have hmem : entry ∈ s.encrypted := by rw [htexts]; exact List.mem_cons_self
    obtain ⟨nonce, htext⟩ := h.encrypted entry hmem
    have hopens := hsurvives.opens entry hmem
    unfold decryptNow at hopens
    rw [show fromEnv { s with env := env', singleton := none } = .ok crypto' from hbuild] at hopens
    have hplain : decrypt aead crypto' entry.1 = .ok entry.2 := by
      cases hdecrypt : decrypt aead crypto' entry.1 with
      | error message =>
        simp only [hdecrypt] at hopens
        cases hopens
      | ok plaintext =>
        simp only [hdecrypt] at hopens
        exact congrArg Except.ok (Except.ok.inj hopens)
    rw [htext] at hplain
    exact hkeys.mpr ((decrypt_sealText_iff ha (currentVersion_of_build hbuild) _ nonce entry.2).mp hplain)

theorem survives_step_iff (ha : aead.Authenticated) {act : Action} (hstep : step aead s act = some s')
    (h : Sealed aead s crypto) :
    (Survives aead s' ↔ KeepsKey ⟨s, act, s'⟩) ∧ (KeepsKey ⟨s, act, s'⟩ → ∃ crypto', Sealed aead s' crypto') := by
  have hkeep : ∀ {post : State}, Sealed aead post crypto → KeepsKey ⟨s, act, post⟩ →
      (Survives aead post ↔ KeepsKey ⟨s, act, post⟩) ∧
        (KeepsKey ⟨s, act, post⟩ → ∃ crypto', Sealed aead post crypto') :=
    fun hpost hcond => ⟨iff_of_true (hpost.survives ha) hcond, fun _ => ⟨crypto, hpost⟩⟩
  cases act with
  | encrypt nonce plaintext =>
    simp only [step, h.fromEnv_eq] at hstep
    cases hencrypt : encrypt aead crypto nonce plaintext with
    | error e =>
      rw [hencrypt] at hstep
      obtain rfl := Option.some.inj hstep
      exact hkeep h.load trivial
    | ok encrypted =>
      rw [hencrypt] at hstep
      obtain rfl := Option.some.inj hstep
      obtain ⟨-, rfl⟩ := (encrypt_ok_iff h.builds).mp hencrypt
      exact hkeep (h.encrypted_cons nonce plaintext) trivial
  | create dept nonce id kind value =>
    simp only [step] at hstep
    cases hcreate : create aead s dept nonce id kind value with
    | error e =>
      rw [hcreate] at hstep
      obtain rfl := Option.some.inj hstep
      exact hkeep h.load trivial
    | ok secret =>
      rw [hcreate] at hstep
      obtain rfl := Option.some.inj hstep
      exact hkeep (h.created_cons hcreate) trivial
  | read =>
    obtain rfl := Option.some.inj hstep
    exact hkeep h.load trivial
  | restart =>
    obtain rfl := Option.some.inj hstep
    exact hkeep h.restart trivial
  | rotate env' =>
    simp only [step] at hstep
    split at hstep
    · next hdoc =>
        obtain rfl := Option.some.inj hstep
        exact h.rotate ha hdoc
    · cases hstep

end Steps

/-! ## Runs -/

theorem Fresh.sealed {aead : Aead} {s : State} (h : Fresh s) : ∃ crypto, Sealed aead s crypto := by
  obtain ⟨crypto, hbuild⟩ := h.builds
  refine ⟨crypto, hbuild, fun _ hone => ?_, fun entry hentry => ?_, fun secret hsecret => ?_, fun entry hentry => ?_⟩
  · rw [h.singleton] at hone
    cases hone
  · exact absurd (h.encrypted ▸ hentry) List.not_mem_nil
  · exact absurd (h.secrets ▸ hsecret) List.not_mem_nil
  · exact absurd (h.created ▸ hentry) List.not_mem_nil

/-- **When secrets survive the rotations of a run**: exactly if every rotation comes before anything was encrypted or
sets the key that was set already. -/
theorem survives_iff {aead : Aead} (ha : aead.Authenticated) {s s' : State} {ts : List (Transition State Action)}
    (hr : Run (step aead) s ts s') (h : Fresh s) :
    (∀ t ∈ ts, Survives aead t.post) ↔ ∀ t ∈ ts, KeepsKey t := by
  refine hr.forall_congr (I := fun s => ∃ crypto, Sealed aead s crypto) ?_ h.sealed
  rintro s act s' hstep ⟨crypto, hsealed⟩
  exact survives_step_iff ha hstep hsealed

/-! ## Two runs -/

/-- A cipher that writes the key and the nonce before the plaintext, and looks for them again. -/
def labelled : Aead where
  encrypt key nonce m := key.1 ++ nonce.1 ++ m
  decrypt key nonce ct := if key.1 ++ nonce <+: ct then .ok (ct.drop (key.1 ++ nonce).length) else .error ""
  decodeError _ := "'utf-8' codec can't decode bytes"

theorem labelled_authenticated : labelled.Authenticated where
  decrypt_own key nonce m := by
    show (if key.1 ++ nonce.1 <+: key.1 ++ nonce.1 ++ m then
      Except.ok ((key.1 ++ nonce.1 ++ m).drop (key.1 ++ nonce.1).length) else .error "") = _
    rw [if_pos (List.prefix_append _ _), List.drop_left]
  decrypt_other key key' nonce m hne := by
    refine ⟨"", if_neg ?_⟩
    rintro ⟨rest, heq⟩
    -- both texts begin with a key of 32 bytes
    have hbegin : key'.1 ++ (nonce.1 ++ rest) = key.1 ++ (nonce.1 ++ m) := by
      rw [← List.append_assoc, heq]
      exact List.append_assoc _ _ _
    exact hne (Subtype.ext (List.append_inj_left hbegin (key'.2.trans key.2.symm)))

def firstEnv : Env where
  vars := Dict.ofList [(masterKeyName, String.ofList (encode (List.replicate 32 1)))]

/-- The environment with another key, and with the first one kept. -/
def rotatedEnv : Env where
  vars := Dict.ofList [(masterKeyName, String.ofList (encode (List.replicate 32 2))),
    (oldKeyName 1, String.ofList (encode (List.replicate 32 1)))]

def someNonce : Nonce := ⟨List.replicate 12 0, rfl⟩

theorem unused_fresh : Fresh { env := firstEnv } where
  builds := by
    have hbuild : (build firstEnv).isOk = true := by decide +kernel
    cases h : build firstEnv with
    | error e =>
      rw [h] at hbuild
      cases hbuild
    | ok crypto => exact ⟨crypto, rfl⟩
  singleton := rfl
  secrets := rfl
  encrypted := rfl
  created := rfl

theorem documented_rotatedEnv : documented firstEnv rotatedEnv = true := by decide +kernel

/-- A key is rotated before it was used. -/
theorem survives_first_rotation :
    List.Forall (fun t => Survives labelled t.post)
      (play (step labelled) { env := firstEnv } [.rotate rotatedEnv, .encrypt someNonce "token", .restart]) := by
  rw [List.forall_iff_forall_mem]
  refine (survives_iff labelled_authenticated (play_run _ _) unused_fresh).mpr fun t ht => ?_
  rcases act_of_mem_play ht with ⟨hpre, -⟩ | hact
  · unfold KeepsKey
    rw [hpre]
    split
    · exact .inl rfl
    · trivial
  · unfold KeepsKey
    rcases List.mem_cons.mp hact with hact | hact
    · rw [hact]
      trivial
    · rw [List.mem_singleton.mp hact]
      trivial

/-- A key is rotated after a text was encrypted under it. -/
theorem token_lost_by_rotation :
    ¬ ∀ (aead : Aead), aead.Authenticated → ∀ (s s' : State) (ts : List (Transition State Action)),
      Run (step aead) s ts s' → Fresh s → ∀ t ∈ ts, Survives aead t.post := by
  intro hall
  obtain ⟨crypto, hsealed⟩ := @Fresh.sealed labelled _ unused_fresh
  have hused := hsealed.encrypted_cons someNonce "token"
  have hencrypt : step labelled { env := firstEnv } (.encrypt someNonce "token") =
      some { State.load { env := firstEnv } with
        encrypted := [(sealText labelled crypto.currentKey someNonce "token", "token")] } := by
    simp only [step, hsealed.fromEnv_eq,
      (@encrypt_ok_iff labelled _ _ hsealed.builds _ _ _).mpr ⟨(by decide : "token" ≠ ""), rfl⟩]
  rw [hsealed.load_eq] at hused hencrypt
  have hrotate := @step_rotate labelled ⟨firstEnv, some crypto, [],
    [(sealText labelled crypto.currentKey someNonce "token", "token")], []⟩ _ documented_rotatedEnv
  have hlost := hall labelled labelled_authenticated _ _ _ (.cons hencrypt (.cons hrotate .nil)) unused_fresh _
    (List.mem_cons_of_mem _ List.mem_cons_self)
  rcases (hused.rotate labelled_authenticated documented_rotatedEnv).1.mp hlost with hnone | hkey
  · cases hnone
  · have hne : (masterKey rotatedEnv).toOption ≠ (masterKey firstEnv).toOption := by decide +kernel
    exact hne (congrArg Except.toOption hkey)

end Irip.Secrets
