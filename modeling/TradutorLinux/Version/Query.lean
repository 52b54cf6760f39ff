import Mathlib.Data.List.DropRight
import Mathlib.Data.List.Infix
import TradutorLinux.Process.Unicode
import TradutorLinux.Version.Block

/-!
# Queries of version blocks

`VerQueryValue` does not walk through the nodes.  It takes the last component of
the path and searches the memory from the block on for its bytes.

## Main definitions

* `verQueryValueInternal` — the answer, and how far the memory is read for it.
* `verQueryValueW`, `verQueryValueA` — the two functions.
-/

namespace TradutorLinux

open Process

/-- What the guest gets: an error, a pointer into the memory with a length, or a text of its own
with the length of that and its terminator. -/
inductive VersionAnswer
  | invalidParameter
  | resourceNotFound
  | value (offset length : ℕ)
  | text (string : ByteString)
deriving DecidableEq

/-- An answer, and where the memory that is read for it ends. -/
structure VersionReply where
  answer : VersionAnswer
  readEnd : ℕ
deriving DecidableEq

/-- A separator of the components of a path. -/
def isSlash (b : UInt8) : Bool := isSeparator b.toNat

/-- `extract_query_key`. -/
def extractQueryKey (subBlock : ByteString) : ByteString :=
  ((subBlock.dropWhile isSlash).rdropWhile isSlash).rtakeWhile fun b => !isSlash b

def isRootQuery (subBlock : ByteString) : Bool :=
  subBlock = [] ∨ subBlock = text "\\" ∨ subBlock = text "/"

/-- The path has `Translation` in it. -/
def isTranslationQuery (subBlock : ByteString) : Bool :=
  text "Translation" <:+: subBlock ∨ text "translation" <:+: subBlock

def unitsAt (memory : ℕ → UInt8) (offset count : ℕ) : List UInt16 :=
  (List.range count).map fun i => UInt16.ofNat (wordAt memory (offset + 2 * i))

/-- Where `wide_to_utf8` stops to read: behind the first terminator or the last unit, but not in
front of the end of the first one. -/
def unitsReadEnd (memory : ℕ → UInt8) (offset count : ℕ) : ℕ :=
  let front := (unitsAt memory offset count).takeWhile (· ≠ 0)
  offset + 2 * max 1 (min count (front.length + 1))

def verQueryValueInternal (memory : ℕ → UInt8) (subBlock : ByteString) (wideOutput : Bool) :
    VersionReply :=
  if isRootQuery subBlock = true then
    match search memory 128 VersionNode.kFixedSig with
    | none => ⟨.resourceNotFound, 128⟩
    | some it => ⟨.value it 52, it + 4⟩
  else if isTranslationQuery subBlock = true then
    let needle := wideBytes VersionNode.translationKey
    match search memory 8192 needle with
    | none => ⟨.resourceNotFound, 8192⟩
    | some keyOffset =>
      if 6 ≤ keyOffset then
        let valLen := wordAt memory (keyOffset - 4)
        let afterKey := keyOffset + needle.length
        ⟨.value (alignDword afterKey) (if 0 < valLen then valLen else 4), afterKey⟩
      else ⟨.resourceNotFound, keyOffset + needle.length⟩
  else
    let key := extractQueryKey subBlock
    if key = [] then ⟨.invalidParameter, 0⟩
    else
      let needle := wideBytes (utf8ToWide key)
      match search memory 32768 needle with
      | none => ⟨.resourceNotFound, 32768⟩
      | some keyOffset =>
        if keyOffset < 6 then ⟨.resourceNotFound, keyOffset + needle.length⟩
        else
          let valChars := wordAt memory (keyOffset - 4)
          let afterKey := keyOffset + needle.length
          let valOffset := alignDword afterKey
          if wideOutput = true then ⟨.value valOffset valChars, afterKey⟩
          else
            let numChars := valChars - 1
            ⟨.text (wideToUtf8 (unitsAt memory valOffset numChars)),
              unitsReadEnd memory valOffset numChars⟩

/-- The path of `VerQueryValueW` in UTF-8; one that is too long is not copied. -/
def wideSubBlock (subBlock : List UInt16) : ByteString :=
  if subBlock.length < 4096 then wideToUtf8 subBlock else []

/-- `tl_VerQueryValueW`, with a path that is not null and can be read. -/
def verQueryValueW (memory : ℕ → UInt8) (subBlock : List UInt16) : VersionReply :=
  verQueryValueInternal memory (wideSubBlock subBlock) true

/-- `tl_VerQueryValueA`. -/
def verQueryValueA (memory : ℕ → UInt8) (subBlock : ByteString) : VersionReply :=
  verQueryValueInternal memory subBlock false

end TradutorLinux
