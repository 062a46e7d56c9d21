import Irip.Base.Base64
import Irip.Base.Dict
import Irip.Common

/-!
# `Secrets.Crypto` — envelope encryption under a master key

A secret is encrypted under the master key of the environment, and its text names the version of that key. Older keys
are kept in the environment under numbered names.
-/

namespace Irip.Secrets

open Base64

/-! ## Keys -/

/-- A master key. -/
abbrev Key := { b : Bytes // b.length = 32 }

/-- What `os.urandom(12)` gives. -/
abbrev Nonce := { b : Bytes // b.length = 12 }

def decodeKey (encoded : String) : Except String Key :=
  match decode encoded.toList with
  | .error exc => .error ("Invalid master key encoding: " ++ exc)
  | .ok key =>
    if h : key.length = 32 then .ok ⟨key, h⟩
    else .error ("Master key must be 32 bytes, got " ++ toString key.length ++ " bytes")

/-- AES-GCM without associated data, and the text of a `UnicodeDecodeError`. -/
structure Aead where
  encrypt : Key → Nonce → Bytes → Bytes
  decrypt : Key → Bytes → Bytes → Except String Bytes
  decodeError : Bytes → String

/-- The cipher is authenticated: a text opens under the key it was encrypted with, and under no other. -/
structure Aead.Authenticated (aead : Aead) : Prop where
  decrypt_own : ∀ (key : Key) (nonce : Nonce) (m : Bytes),
    aead.decrypt key nonce.1 (aead.encrypt key nonce m) = .ok m
  decrypt_other : ∀ (key key' : Key) (nonce : Nonce) (m : Bytes), key' ≠ key →
    ∃ exc, aead.decrypt key' nonce.1 (aead.encrypt key nonce m) = .error exc

/-! ## The environment -/

/-- The environment variables, and what `read_secret_file` gives for each path. -/
structure Env where
  vars : Dict String String := ∅
  files : Dict String (Except String String) := ∅

/-- What is raised. -/
inductive Raised where
  | secretFile (message : String)
  | runtime (message : String)
  | value (message : String)
  | integrity
  | app (error : AppError)

/-- `read_secret` of a secret that is not required: the file goes first. -/
def readSecret (env : Env) (name : String) : Except Raised (Option String) :=
  match (env.vars.get? (name ++ "_FILE")).filter (· ≠ "") with
  | some path =>
    match env.files.get? path with
    | none => .error (.secretFile ("Secret file " ++ path ++ " is not a regular file"))
    | some (.error exc) => .error (.secretFile exc)
    | some (.ok content) => .ok (some content)
  | none => .ok ((env.vars.get? name).filter (· ≠ ""))

def masterKeyName : String := "IRIP_MASTER_KEY"

def oldKeyName (version : Nat) : String := "IRIP_MASTER_KEY_OLD_v" ++ toString version

/-- `_TEST_MASTER_KEY_B64`. -/
def testMasterKey : String := String.ofList (encode (List.replicate 32 48))

/-- `_decode_key`, as it raises. -/
def decodeKeyOrRaise (encoded : String) : Except Raised Key := (decodeKey encoded).mapError .value

/-- The current key of `from_env`. -/
def masterKey (env : Env) : Except Raised Key :=
  match readSecret env masterKeyName with
  | .error e => .error e
  | .ok (some raw) => decodeKeyOrRaise raw
  | .ok none =>
    if env.vars.get? "IRIP_ENV" = some "test" then decodeKeyOrRaise testMasterKey
    else .error (.runtime ("IRIP_MASTER_KEY is required in non-test environment. " ++
      "Set IRIP_ENV=test for test environments or provide IRIP_MASTER_KEY."))

/-- The loop over the old versions: it ends at the first that is missing, and passes over one that is not valid. -/
def loadOldKeys (env : Env) : List Nat → Dict Int Key → Except Raised (Dict Int Key)
  | [], keys => .ok keys
  | version :: versions, keys =>
    match readSecret env (oldKeyName version) with
    | .error e => .error e
    | .ok none => .ok keys
    | .ok (some raw) =>
      match decodeKey raw with
      | .error _ => loadOldKeys env versions keys
      | .ok key => loadOldKeys env versions (keys.set (version : Int) key)

/-- `range(1, 10)`. -/
def oldVersions : List Nat := [1, 2, 3, 4, 5, 6, 7, 8, 9]

structure EnvelopeCrypto where
  currentKey : Key
  currentVersion : Int := 0
  oldKeys : Dict Int Key := ∅

/-- What `from_env` builds where there is no instance yet. -/
def build (env : Env) : Except Raised EnvelopeCrypto :=
  match masterKey env with
  | .error e => .error e
  | .ok key =>
    match loadOldKeys env oldVersions ∅ with
    | .error e => .error e
    | .ok older => .ok { currentKey := key, currentVersion := 0, oldKeys := older }

theorem build_ok_iff {env : Env} {crypto : EnvelopeCrypto} :
    build env = .ok crypto ↔ ∃ older, masterKey env = .ok crypto.currentKey ∧
      loadOldKeys env oldVersions ∅ = .ok older ∧
        crypto = { currentKey := crypto.currentKey, currentVersion := 0, oldKeys := older } := by
  unfold build
  cases hkey : masterKey env with
  | error e => simp
  | ok key =>
    cases hold : loadOldKeys env oldVersions ∅ with
    | error e => simp
    | ok older =>
      constructor
      · intro h
        obtain rfl := Except.ok.inj h
        exact ⟨older, rfl, rfl, rfl⟩
      · rintro ⟨older', hk, ho, hcrypto⟩
        obtain rfl := Except.ok.inj ho
        rw [Except.ok.inj hk]
        exact congrArg Except.ok hcrypto.symm

/-! ## Encryption -/

/-- The text of a version, a nonce and a ciphertext. -/
def format (version : Int) (nonce ct : Bytes) : String :=
  String.ofList ('v' :: (toString version).toList ++ ':' :: (encode nonce ++ ':' :: encode ct))

/-- `bytes.decode("utf-8")`. -/
def utf8Decode? (bytes : Bytes) : Option String := String.fromUTF8? ⟨bytes.toArray⟩

/-- `EnvelopeCrypto.encrypt`, with the nonce that is drawn. -/
def encrypt (aead : Aead) (crypto : EnvelopeCrypto) (nonce : Nonce) (plaintext : String) : Except Raised String :=
  if plaintext = "" then .error (.value "Cannot encrypt empty plaintext")
  else .ok (format crypto.currentVersion nonce.1 (aead.encrypt crypto.currentKey nonce (utf8 plaintext)))

def split (sep : Char) : Nat → List Char → List (List Char)
  | 0, cs => [cs]
  | n + 1, cs =>
    match cs.dropWhile (· ≠ sep) with
    | [] => [cs]
    | _ :: rest => cs.takeWhile (· ≠ sep) :: split sep n rest

/-- The key that belongs to a version. -/
def EnvelopeCrypto.key? (crypto : EnvelopeCrypto) (version : Int) : Option Key :=
  if version = crypto.currentVersion then some crypto.currentKey else crypto.oldKeys.get? version

/-- The version number that the first part of a text gives. -/
def versionOf (versionStr : List Char) : Except String Int :=
  match versionStr with
  | 'v' :: digits =>
    match pyInt? (String.ofList digits) with
    | none => .error ("Invalid version number: " ++ String.ofList versionStr)
    | some version => .ok version
  | _ => .error ("Invalid version prefix: " ++ String.ofList versionStr)

/-- The two `base64.b64decode` of `decrypt`. -/
def decodeParts (nonceB64 ctB64 : List Char) : Except String (Bytes × Bytes) :=
  match decode nonceB64, decode ctB64 with
  | .error exc, _ => .error ("Failed to decode base64: " ++ exc)
  | .ok _, .error exc => .error ("Failed to decode base64: " ++ exc)
  | .ok nonce, .ok ct => .ok (nonce, ct)

/-- `EnvelopeCrypto.decrypt`: whatever goes wrong is a `ValueError`. -/
def decrypt (aead : Aead) (crypto : EnvelopeCrypto) (encrypted : String) : Except String String :=
  match split ':' 2 encrypted.toList with
  | [versionStr, nonceB64, ctB64] =>
    match versionOf versionStr with
    | .error message => .error message
    | .ok version =>
      match crypto.key? version with
      | none => .error ("Unknown key version: v" ++ toString version)
      | some key =>
        match decodeParts nonceB64 ctB64 with
        | .error message => .error message
        | .ok (nonce, ct) =>
          match aead.decrypt key nonce ct with
          | .error exc => .error ("Decryption failed: " ++ exc)
          | .ok plaintext =>
            match utf8Decode? plaintext with
            | none => .error (aead.decodeError plaintext)
            | some text => .ok text
  | _ => .error "Invalid encrypted format: expected 'v\x7bversion\x7d:\x7bnonce\x7d:\x7bciphertext\x7d'"

/-! ## What was encrypted -/

theorem utf8Decode?_utf8 (text : String) : utf8Decode? (utf8 text) = some text := by
  unfold utf8Decode? utf8
  exact dif_pos text.isValidUTF8

theorem split_append {sep : Char} {cs rest : List Char} (n : Nat) (hcs : sep ∉ cs) :
    split sep (n + 1) (cs ++ sep :: rest) = cs :: split sep n rest := by
  have hne : ∀ c ∈ cs, (decide (c ≠ sep)) = true := fun c hc => decide_eq_true (fun heq => hcs (heq ▸ hc))
  have hdrop : (cs ++ sep :: rest).dropWhile (· ≠ sep) = sep :: rest := by
    rw [List.dropWhile_append_of_pos hne]
    exact List.dropWhile_cons_of_neg (by simp)
  have htake : (cs ++ sep :: rest).takeWhile (· ≠ sep) = cs := by
    rw [List.takeWhile_append_of_pos hne, List.takeWhile_cons_of_neg (by simp), List.append_nil]
  rw [split, hdrop, htake]

theorem colon_notMem_encode (bs : Bytes) : ':' ∉ encode bs := fun h => (encode_ascii h).2 rfl

theorem split_format (nonce ct : Bytes) :
    split ':' 2 (format 0 nonce ct).toList = [['v', '0'], encode nonce, encode ct] := by
  have hversion : (format 0 nonce ct).toList = ['v', '0'] ++ ':' :: (encode nonce ++ ':' :: encode ct) := by
    rw [format, String.toList_ofList]
    rfl
  rw [hversion, split_append 1 (by decide), split_append 0 (colon_notMem_encode nonce)]
  rfl

/-- The text of a plaintext under a key of version 0. -/
def sealText (aead : Aead) (key : Key) (nonce : Nonce) (plaintext : String) : String :=
  format 0 nonce.1 (aead.encrypt key nonce (utf8 plaintext))

theorem decrypt_sealText (aead : Aead) {crypto : EnvelopeCrypto} (hversion : crypto.currentVersion = 0) (key : Key)
    (nonce : Nonce) (plaintext : String) :
    decrypt aead crypto (sealText aead key nonce plaintext) =
      match aead.decrypt crypto.currentKey nonce.1 (aead.encrypt key nonce (utf8 plaintext)) with
      | .error exc => .error ("Decryption failed: " ++ exc)
      | .ok plaintext' =>
        match utf8Decode? plaintext' with
        | none => .error (aead.decodeError plaintext')
        | some text => .ok text := by
  have hkey : crypto.key? 0 = some crypto.currentKey := by rw [EnvelopeCrypto.key?, hversion, if_pos rfl]
  have hzero : versionOf ['v', '0'] = .ok 0 := by decide +kernel
  rw [decrypt, sealText, split_format]
  simp only [hzero, hkey, decodeParts, decode_encode]

section Opening

variable {aead : Aead} (ha : aead.Authenticated) {crypto : EnvelopeCrypto} (hversion : crypto.currentVersion = 0)

include ha hversion

theorem decrypt_sealText_own (nonce : Nonce) (plaintext : String) :
    decrypt aead crypto (sealText aead crypto.currentKey nonce plaintext) = .ok plaintext := by
  rw [decrypt_sealText aead hversion, ha.decrypt_own]
  simp only [utf8Decode?_utf8]

theorem decrypt_sealText_other {key : Key} (hne : crypto.currentKey ≠ key) (nonce : Nonce) (plaintext : String) :
    ∃ message, decrypt aead crypto (sealText aead key nonce plaintext) = .error message := by
  obtain ⟨exc, hexc⟩ := ha.decrypt_other key crypto.currentKey nonce (utf8 plaintext) hne
  refine ⟨"Decryption failed: " ++ exc, ?_⟩
  rw [decrypt_sealText aead hversion, hexc]

theorem decrypt_sealText_iff (key : Key) (nonce : Nonce) (plaintext : String) :
    decrypt aead crypto (sealText aead key nonce plaintext) = .ok plaintext ↔ crypto.currentKey = key := by
  constructor
  · intro hopen
    by_contra hne
    obtain ⟨message, hother⟩ := decrypt_sealText_other ha hversion hne nonce plaintext
    rw [hother] at hopen
    cases hopen
  · rintro rfl
    exact decrypt_sealText_own ha hversion nonce plaintext

end Opening

end Irip.Secrets
