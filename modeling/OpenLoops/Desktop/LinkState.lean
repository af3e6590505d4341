import Mathlib.Data.Sym.Sym2
import OpenLoops.Desktop.LoopState
import OpenLoops.Library.Text

/-!
# Saved links

The links between loops are saved in one credential.  A link has a kind and two different loops,
the smaller key first; there is at most one link for two loops.  A call changes or removes the
link of two loops and saves all the links; when they are not saved, the old links are put back and
no further call changes them.
-/

namespace Desktop

open Wire (Reader take readArray readByte readLe readRows require)

/-! ### Links -/

/-- How two loops are related. -/
inductive LinkKind where
  | sameLoop
  | notSameLoop
  | sameThread
  | notSameThread
deriving DecidableEq, Repr

/-- A link between two loops. -/
structure Link where
  kind : LinkKind
  a : LoopKey
  b : LoopKey
  updated : Int64
deriving DecidableEq, Repr

/-- The loops of a link. -/
def Link.pair (link : Link) : LoopKey × LoopKey :=
  (link.a, link.b)

/-- The links in a window. -/
structure Relations where
  links : List Link
  /-- Whether there is a credential. -/
  entry : Bool
  /-- The bytes of the credential that were read or written last. -/
  previous : Bytes
  error : Option String
deriving DecidableEq

namespace LinkState

def magic : Bytes := Wire.ascii "OLRelations" ++ [1]

def cap : ℕ := 34

def failure : String :=
  "Saved links are unavailable or changed in another window. Close the other window and reopen OpenLoops; your previous links have been preserved."

/-! ### Two loops in order -/

/-- Keys of which neither comes before the other are the same. -/
theorem eq_of_not_lt {a b : LoopKey} (hab : ¬a.toList < b.toList) (hba : ¬b.toList < a.toList) :
  a = b
  := Vector.toList_inj.mp (List.le_antisymm (List.not_lt.mp hba) (List.not_lt.mp hab))

/-- Two loops, the smaller key first. -/
def canonical (a b : LoopKey) : LoopKey × LoopKey :=
  if a.toList < b.toList then (a, b) else (b, a)

theorem canonical_of_lt {a b : LoopKey} (h : a.toList < b.toList) :
  canonical a b = (a, b)
  := if_pos h

/-- The order in which two loops are given does not matter. -/
theorem canonical_comm (a b : LoopKey) :
  canonical a b = canonical b a
  := by
  rw [canonical, canonical]
  split_ifs with hab hba hba
  · exact absurd hba (List.lt_asymm hab)
  · rfl
  · rfl
  · rw [eq_of_not_lt hab hba]

/-- Two loops that differ are put in order. -/
theorem canonical_lt {a b : LoopKey} (h : a ≠ b) :
  (canonical a b).1.toList < (canonical a b).2.toList
  := by
  rw [canonical]
  split_ifs with hab
  · exact hab
  · by_contra hba
    apply h (eq_of_not_lt hab hba)

/-- Loops in order are the same loops. -/
theorem mk_canonical (a b : LoopKey) :
  s((canonical a b).1, (canonical a b).2) = s(a, b)
  := by
  rw [canonical]
  split_ifs
  · rfl
  · apply Sym2.eq_swap

/-- Two loops are put in the same order as two others exactly when they are the same loops. -/
theorem canonical_eq_iff {a b c d : LoopKey} :
  canonical a b = canonical c d ↔ s(a, b) = s(c, d)
  := by
  constructor
  · intro h
    rw [← mk_canonical a b, h, mk_canonical]
  · intro h
    rcases Sym2.eq_iff.mp h with ⟨rfl, rfl⟩ | ⟨rfl, rfl⟩
    · rfl
    · apply canonical_comm

/-- Loops in order stay in order. -/
theorem canonical_canonical (a b : LoopKey) :
  canonical (canonical a b).1 (canonical a b).2 = canonical a b
  := canonical_eq_iff.mpr (mk_canonical a b)

/-! ### Encoding -/

/-- The byte of a kind. -/
def kindTag : LinkKind → UInt8
  | .sameLoop => 0
  | .notSameLoop => 1
  | .sameThread => 2
  | .notSameThread => 3

/-- The bytes of a link. -/
def pushLink (link : Link) : Bytes :=
  [kindTag link.kind] ++ link.a.toList ++ link.b.toList
    ++ Wire.le 8 link.updated.toUInt64.toNat

/-- The bytes of the links, when they fit. -/
def encode (links : List Link) : Except StoreFailure Bytes :=
  if cap < links.length then .error .failed
  else
    let bytes := magic ++ [UInt8.ofNat links.length] ++ links.flatMap pushLink
    if maxCredentialBytes < bytes.length then .error .failed else .ok bytes

/-! ### Decoding -/

/-- The kind of a byte. -/
def ofKindTag : UInt8 → Except StoreFailure LinkKind
  | 0 => .ok .sameLoop
  | 1 => .ok .notSameLoop
  | 2 => .ok .sameThread
  | 3 => .ok .notSameThread
  | _ => .error .failed

/-- A link between two loops in order that no link before it is between. -/
def readLink (links : List Link) : Reader StoreFailure Link := do
  let kind ← readByte .failed
  let a ← readArray .failed 32
  let b ← readArray .failed 32
  let updated ← readLe .failed 8
  let kind ← liftM (ofKindTag kind)
  liftM (require StoreFailure.failed
    (a.toList < b.toList && !links.any fun link => link.a = a && link.b = b))
  return { kind, a, b, updated := (UInt64.ofNat updated).toInt64 }

/-- The links. -/
def readLinks : Reader StoreFailure (List Link) := do
  let found ← take .failed magic.length
  liftM (require StoreFailure.failed (found = magic))
  let count ← readByte .failed
  liftM (require StoreFailure.failed (count.toNat ≤ cap))
  readRows readLink count.toNat []

/-- The links that take up all the bytes; there are none where there are no bytes. -/
def decode (bytes : Bytes) : Except StoreFailure (List Link) :=
  if bytes = [] then .ok []
  else if maxCredentialBytes < bytes.length then .error .failed
  else Wire.readAll .failed readLinks bytes

end LinkState

/-! ### Calls -/

namespace Relations

open LinkState

/-- The kind of the link between two loops, if there is one. -/
def get (r : Relations) (a b : LoopKey) : Option LinkKind :=
  (KeyedRows.find Link.pair r.links (canonical a b)).map (·.kind)

/-- The loops of the links of a kind. -/
def pairs (r : Relations) (kind : LinkKind) : List (LoopKey × LoopKey) :=
  (r.links.filter fun link => link.kind = kind).map Link.pair

/-- The other loops of the links of a kind that a loop has. -/
def linkedTo (r : Relations) (key : LoopKey) (kind : LinkKind) : List LoopKey :=
  (r.links.filter fun link => link.kind = kind && (link.a = key || link.b = key)).map
    fun link => if link.a = key then link.b else link.a

/-- Save the links. -/
def save (testBuild : Bool) (r : Relations) :
    StoreProgram (Except StoreFailure Unit × Relations) := do
  match ← saveEncoded testBuild r.entry r.previous (encode r.links) with
  | .error e => return (.error e, r)
  | .ok bytes => return (.ok (), { r with previous := bytes })

/-- Save changed links, or put the old ones back. -/
def saveChanged (testBuild : Bool) (r : Relations) (links : List Link) :
    StoreProgram (Except String Unit × Relations) := do
  match ← save testBuild { r with links } with
  | (.error _, saved) =>
      return (.error failure, { saved with links := r.links, error := some failure })
  | (.ok (), saved) => return (.ok (), saved)

/-- Remove the link between two loops, and save. -/
def remove (testBuild : Bool) (r : Relations) (a b : LoopKey) :
    StoreProgram (Except String Unit × Relations) :=
  match r.error with
  | some error => return (.error error, r)
  | none =>
      let pair := canonical a b
      saveChanged testBuild r (r.links.filter fun link => link.a ≠ pair.1 || link.b ≠ pair.2)

/-- The text for a link that there is no room for. -/
def limitReached : String :=
  "The saved-link limit (34) is reached. Existing links are preserved."

/-- A link between two loops in order that is there can be put over. -/
theorem replace_isSome {r : Relations} {link : Link} (hpair : canonical link.a link.b = link.pair)
    (h : (r.get link.a link.b).isSome) :
  (KeyedRows.replace Link.pair link r.links).isSome
  := by
  apply KeyedRows.replace_isSome
  rw [← hpair]
  rw [get, Option.isSome_map] at h
  exact h

/-- Link two loops, and save; a loop is not linked to itself. -/
def set (testBuild : Bool) (r : Relations) (kind : LinkKind) (a b : LoopKey) :
    StoreProgram (Except String Unit × Relations) :=
  match r.error with
  | some error => return (.error error, r)
  | none =>
      if a = b then remove testBuild r a b
      else
        let pair := canonical a b
        if h : (r.get pair.1 pair.2).isSome then do
          let link : Link := ⟨kind, pair.1, pair.2, ← now⟩
          -- The link that was found is there.
          let links := (KeyedRows.replace Link.pair link r.links).get
            (replace_isSome (canonical_canonical a b) h)
          saveChanged testBuild r links
        else if cap ≤ r.links.length then return (.error limitReached, r)
        else do
          let link : Link := ⟨kind, pair.1, pair.2, ← now⟩
          saveChanged testBuild r (r.links ++ [link])

/-- Open the links of the credential; `entryBuilds` says whether it can be used. -/
def «open» (testBuild target entryBuilds : Bool) : StoreProgram Relations :=
  let result : Relations := ⟨[], false, [], none⟩
  if ¬target then return result
  else if ¬entryBuilds then return { result with error := some failure }
  else .perform .getSecret fun (loaded : Except StoreFailure (Option Bytes)) =>
    let result := { result with entry := true }
    match loaded with
    | .ok (some bytes) =>
        let result := { result with previous := bytes }
        match decode bytes with
        | .ok links => return { result with links }
        | .error _ => return { result with error := some failure }
    | .ok none => do
        match ← save testBuild result with
        | (.error _, result) => return { result with error := some failure }
        | (.ok (), result) => return result
    | .error _ => return { result with error := some failure }

end Relations

/-! ### Keys of loops -/

section

variable (hmac : LoopKey → Bytes → LoopKey) (toLowercase : List Char → List Char)

/-- The punctuation of ASCII. -/
def isAsciiPunctuation (c : Char) : Bool :=
  ('!' ≤ c && c ≤ '/') || (':' ≤ c && c ≤ '@') || ('[' ≤ c && c ≤ '\x60') || ('\x7b' ≤ c && c ≤ '~')

/-- The text without what does not matter for a key. -/
def normalizeForFingerprint (quote : String) : String :=
  String.ofList (toLowercase (joinWords (splitWhitespace (quote.toList.map fun c =>
    if isAsciiPunctuation c then ' ' else c))))

/-- The key that a secret makes of some fields. -/
def domainKey (secret : LoopKey) (fields : List String) : LoopKey :=
  hmac secret (fields.flatMap fun field => Wire.le 8 field.utf8ByteSize ++ Wire.utf8 field)

/-- The key of a loop that was found in a block of a message. -/
def Decisions.fingerprint (d : Decisions) (account source : String) (block : ℕ)
    (quote actionPhrase : String) : LoopKey :=
  domainKey hmac d.secret ["openloops-expectation-v2", account, source, toString block,
    normalizeForFingerprint toLowercase quote, normalizeForFingerprint toLowercase actionPhrase]

/-- The key of a conversation. -/
def threadKey (secret : LoopKey) (account conversation : String) : LoopKey :=
  domainKey hmac secret ["openloops-conversation-v1", account, conversation]

end

end Desktop
