import TradutorLinux.Rust.Agreement
import TradutorLinux.Pe.Builder

/-!
# The C++ parser as the oracle of the Rust parser

The Rust parser is canonical for the main image; the C++ parser stays its
oracle.  The oracle is exact on the files that meet `Contract`, and on no other
file that one of the two accepts.

## Main results

* `oracleAgrees_iff`, `same_image`
-/

namespace TradutorLinux.Rust

open Pe (ParseResult forwardingDll)

/-- The parsers accept the same, and reject with the same status, where the
status is one that C++ has. -/
def OracleAgrees (data : ByteString) : Prop :=
  ((∃ m, Parser.parse data = .ok m) ↔ ∃ r, Pe.parsePe data = .ok r) ∧
    ∀ e f, Parser.parse data = .error e → Pe.parsePe data = .error f →
      e.status ≤ statusUnsupportedMechanism → e.status = statusOf f.status

theorem oracleAgrees_of_contract {data : ByteString} (h : Contract data) : OracleAgrees data := by
  have ha := parse_agree h
  refine ⟨ha.isOk_iff.symm, fun e f he hf hle => ?_⟩
  rcases ha.of_error hf he with hs | hl
  · exact hs
  · rw [hl.2] at hle
    exact absurd hle (by decide)

/-- **The parsers decide a file alike when it meets the contract, and where one
of them accepts the file, only then.** -/
theorem oracleAgrees_iff (data : ByteString) : (Contract data → OracleAgrees data) ∧
      ((∃ m, Parser.parse data = .ok m) ∨ (∃ r, Pe.parsePe data = .ok r) →
        (OracleAgrees data ↔ Contract data)) := by
  refine ⟨oracleAgrees_of_contract, fun ha => ⟨fun h => ?_, oracleAgrees_of_contract⟩⟩
  obtain ⟨⟨m, hm⟩, r, hr⟩ : (∃ m, Parser.parse data = .ok m) ∧ ∃ r, Pe.parsePe data = .ok r := by
    rcases ha with hu | hp
    · exact ⟨hu, h.1.mp hu⟩
    · exact ⟨h.1.mpr hp, hp⟩
  exact (accepted hr hm).2

/-- An image with the alignment of a driver, below the smallest that C++ takes. -/
def lowAlignment : ByteString :=
  Pe.build { sectionAlignment := 0x20, fileAlignment := 0x20 }

/-- An image whose export directory lies in a section that is not in the file. -/
def uninitializedExports : ByteString :=
  Pe.build
    { directories := [(0x1000, 40)]
      sections := [⟨text ".bss", 0x100, 0x1000, 0, 0, 0xC0000080⟩] }

/-- Rust admits the first image and C++ does not; C++ admits the second and
Rust does not. -/
theorem not_oracleAgrees : ¬OracleAgrees lowAlignment ∧ ¬OracleAgrees uninitializedExports := by
  constructor <;> rintro ⟨ha, -⟩
  · have hu : (Parser.parse lowAlignment).isOk = true := by decide +kernel
    have hp : (Pe.parsePe lowAlignment).isOk = false := by decide +kernel
    obtain ⟨r, hr⟩ := ha.mp (exists_ok hu)
    rw [hr] at hp
    cases hp
  · have hp : (Pe.parsePe uninitializedExports).isOk = true := by decide +kernel
    have hu : (Parser.parse uninitializedExports).isOk = false := by decide +kernel
    obtain ⟨m, hm⟩ := ha.mpr (exists_ok hp)
    rw [hm] at hu
    cases hu

/-- **Where both parsers accept a file, they describe the same image.** -/
theorem same_image {data : ByteString} {r : ParseResult} {m : Model}
    (hpe : Pe.parsePe data = .ok r) (hrust : Parser.parse data = .ok m) : m.toPeInfo = r.info :=
  (accepted hpe hrust).1.symm

theorem same_image_forwardingDll :
    ∃ r m, Pe.parsePe forwardingDll = .ok r ∧ Parser.parse forwardingDll = .ok m ∧
      m.toPeInfo = r.info ∧ r.info.imports.length = 2 := by
  have himp :
      ((Pe.parsePe forwardingDll).toOption.map fun r => r.info.imports.length) = some 2 := by
    decide +kernel
  have hu : (Parser.parse forwardingDll).isOk = true := by decide +kernel
  obtain ⟨m, hm⟩ := exists_ok hu
  cases hr : Pe.parsePe forwardingDll with
  | error f =>
    rw [hr] at himp
    cases himp
  | ok r =>
    rw [hr] at himp
    exact ⟨r, m, rfl, hm, same_image hr hm, Option.some.inj himp⟩

end TradutorLinux.Rust
