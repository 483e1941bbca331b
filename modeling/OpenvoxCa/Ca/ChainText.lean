import OpenvoxCa.Ca.Chain
import OpenvoxCa.Data.Scan
import Mathlib.Data.List.TakeWhile

/-!
# The text of a chain file

`decodeCRLChainStrict` starts from the PEM blocks of a file. This file is about how the blocks come
out of its text. The decoder of the Go library is taken as it is (`Pem`): it finds the first
well-formed block, passing over whatever stands before it. So does the loop of `decodeCRLChainRest`,
block by block, and what it looks at besides the blocks is what follows the last of them.

A block that is cut short at the end of the file is therefore noticed, and so is one that is
followed by nothing but broken ones. A broken block that a well-formed one follows is passed over in
silence, as if it were commentary (`strict_complete_iff`): the file reads as a shorter list of CRLs.
-/

namespace OpenvoxCa.Ca

/-! ### Lines and blocks -/

/-- The line that opens an `X509 CRL` block. -/
def crlBegin : Text := "-----BEGIN X509 CRL-----".toList

/-- The line that closes it. -/
def crlEnd : Text := "-----END X509 CRL-----".toList

/-- Whether a line opens an `X509 CRL` block; space after it does not matter. -/
def opensCRL (line : Text) : Bool := (line.reverse.dropWhile isSpace).reverse == crlBegin

/-- Whether there is nothing but space in a line. -/
def isBlank (line : Text) : Bool := line.all isSpace

/-- **A PEM decoder**: whether a well-formed block begins at the head of a list of lines, and how
many lines it takes besides the first. The line that opens a block says what is in it, and no line
within a well-formed block opens another. -/
structure Pem where
  read : List Text → Option (PemBlock × ℕ)
  opening : ∀ {line rest block n}, read (line :: rest) = some (block, n) →
    block.isCRL = opensCRL line
  inside : ∀ {line rest block n}, read (line :: rest) = some (block, n) →
    ∀ l ∈ rest.take n, opensCRL l = false

namespace Pem

variable (pem : Pem)

/-- What the loop of `decodeCRLChainRest` gets of a file: block after block from `pem.Decode`, and
whether anything but space is left in the end. -/
def chainFile (file : List Text) : ChainFile where
  blocks := (Scan.records pem.read file).1
  trailing := (Scan.records pem.read file).2.any fun line => !isBlank line

/-- The CRL at each line that opens a block for one: nothing, where the block is not well-formed or
is no CRL. -/
def openings (file : List Text) : List (Option RevocationList) :=
  (Scan.openings pem.read opensCRL file).map fun block => block.bind PemBlock.crl

/-- **A block is hidden**: a line opens a CRL block that is not well-formed, and a well-formed block
follows somewhere. -/
def Hides (file : List Text) : Prop := Scan.Hides pem.read opensCRL file

theorem marking : Scan.Marking pem.read opensCRL PemBlock.isCRL := ⟨pem.opening, pem.inside⟩

end Pem

/-! ### Strict decoding -/

theorem opensCRL_of_isBlank {line : Text} (h : isBlank line = true) : opensCRL line = false := by
  have hnil : line.reverse.dropWhile isSpace = [] := by
    refine List.dropWhile_eq_nil_iff.mpr fun c hc => ?_
    exact List.all_eq_true.mp h c (List.mem_reverse.mp hc)
  rw [opensCRL, hnil]
  decide

/-- What is decoded short of the limit are the CRLs of all the blocks. -/
theorem decodeCRLChainRest_crls {limit : ℕ} {acc out : List RevocationList} {blob rest : Blob}
    (h : decodeCRLChainRest limit acc blob = some (out, rest)) (hlimit : out.length < limit) :
    ∃ new, out = acc ++ new ∧ (blob.filter PemBlock.isCRL).map PemBlock.crl = new.map some := by
  induction blob generalizing acc with
  | nil =>
    obtain ⟨rfl, -⟩ := Prod.mk.inj (Option.some.inj h)
    exact ⟨[], by simp, rfl⟩
  | cons block blob ih =>
    unfold decodeCRLChainRest at h
    split at h
    · next hstop =>
      obtain ⟨rfl, -⟩ := Prod.mk.inj (Option.some.inj h)
      omega
    · split at h
      · next hcrl =>
        split at h
        · next crl hparse =>
          obtain ⟨new, rfl, hnew⟩ := ih h
          exact ⟨crl :: new, by simp, by simp [hcrl, hparse, hnew]⟩
        · cases h
      · next hcrl =>
        obtain ⟨new, rfl, hnew⟩ := ih h
        exact ⟨new, rfl, by simpa [hcrl] using hnew⟩

/-- **What strict decoding returns**: the CRL of every block labelled as one, with nothing after the
last block. -/
theorem decodeCRLChainStrict_ok {file : ChainFile} {out : List RevocationList}
    (h : decodeCRLChainStrict file = .ok out) :
    (file.blocks.filter PemBlock.isCRL).map PemBlock.crl = out.map some ∧
      file.trailing = false := by
  unfold decodeCRLChainStrict at h
  split at h
  · cases h
  · next decoded _ hdec =>
    split at h
    · cases h
    · next hcount =>
      split at h
      · cases h
      · next htrailing =>
        split at h
        · cases h
        · obtain rfl := Except.ok.inj h
          obtain ⟨new, rfl, hnew⟩ := decodeCRLChainRest_crls hdec (by omega)
          exact ⟨hnew, by simpa using htrailing⟩

/-- **Strict decoding loses a block exactly where one is hidden.** If the strict decoding of a file
succeeds, every line of the file that opens an `X509 CRL` block has contributed one CRL to the
result, in the order of the file, if and only if no such line begins a block that is not well-formed
while a well-formed block follows. -/
theorem strict_complete_iff (pem : Pem) {file : List Text} {out : List RevocationList}
    (h : decodeCRLChainStrict (pem.chainFile file) = .ok out) :
    pem.openings file = out.map some ↔ ¬pem.Hides file := by
  obtain ⟨hcrls, htrailing⟩ := decodeCRLChainStrict_ok h
  have hleft : ∀ line ∈ (Scan.records pem.read file).2, opensCRL line = false := by
    intro line hline
    have hblank := List.any_eq_false.mp htrailing line hline
    exact opensCRL_of_isBlank (by simpa using hblank)
  rw [Pem.Hides, ← Scan.none_mem_openings_iff pem.marking hleft]
  constructor
  · -- A line that contributed nothing is not among those that contributed a CRL.
    intro hall hnone
    have hmem : none ∈ out.map some := by
      rw [← hall]
      exact List.mem_map.mpr ⟨none, hnone, rfl⟩
    simp at hmem
  · intro hsome
    have hrecords := Scan.reduceOption_openings pem.marking file
    have hfull : Scan.openings pem.read opensCRL file =
        ((Scan.records pem.read file).1.filter PemBlock.isCRL).map some := by
      rw [← hrecords]
      exact (Scan.map_some_reduceOption hsome).symm
    rw [Pem.openings, hfull, ← hcrls]
    simp [Pem.chainFile]

/-! ### A file to try it on

Blocks of one line each, and one CRL. -/

/-- The CRL of the sample file. -/
def sampleUpstream : RevocationList :=
  { number := some 7
    entries := []
    thisUpdate := 0
    nextUpdate := 1000
    issuer := { commonName := ['r'] }
    signedBy := { id := 1 } }

def isBase64 (c : Char) : Bool := c.isAlphanum || c == '+' || c == '/' || c == '='

/-- A block of one line: it is a CRL if it is the sample. -/
def readOneLine : List Text → Option (PemBlock × ℕ)
  | line :: body :: close :: _ =>
    if opensCRL line && body.all isBase64 && close == crlEnd then
      some (⟨true, if body = ['M', 'I'] then some sampleUpstream else none⟩, 2)
    else none
  | _ => none

theorem opensCRL_of_isBase64 {line : Text} (h : line.all isBase64 = true) :
    opensCRL line = false := by
  by_contra hopen
  have hbegin : (line.reverse.dropWhile isSpace).reverse = crlBegin := by
    simpa [opensCRL] using hopen
  have hmem : '-' ∈ (line.reverse.dropWhile isSpace).reverse := by
    rw [hbegin]
    decide
  have hline : '-' ∈ line :=
    List.mem_reverse.mp ((List.dropWhile_suffix _).subset (List.mem_reverse.mp hmem))
  exact absurd (List.all_eq_true.mp h _ hline) (by decide)

/-- The decoder of such blocks. -/
def oneLinePem : Pem where
  read := readOneLine
  opening := by
    intro line rest block n h
    unfold readOneLine at h
    split at h
    · next heq =>
      obtain ⟨rfl, rfl⟩ := List.cons.inj heq
      split at h
      · next hblock =>
        obtain ⟨rfl, -⟩ := Prod.mk.inj (Option.some.inj h)
        simp only [Bool.and_eq_true] at hblock
        exact hblock.1.1.symm
      · cases h
    · cases h
  inside := by
    intro line rest block n h l hl
    unfold readOneLine at h
    split at h
    · next line' body close after heq =>
      obtain ⟨rfl, rfl⟩ := List.cons.inj heq
      split at h
      · next hblock =>
        cases h
        simp only [Bool.and_eq_true, beq_iff_eq] at hblock
        have hl : l = body ∨ l = close := by simpa using hl
        rcases hl with rfl | rfl
        · exact opensCRL_of_isBase64 hblock.1.2
        · rw [hblock.2]
          decide
      · cases h
    · cases h

def wholeBlock : List Text := [crlBegin, ['M', 'I'], crlEnd]

/-- The sample, cut short before its last line. -/
def cutBlock : List Text := [crlBegin, ['M', 'I']]

theorem strict_complete_sample :
    decodeCRLChainStrict (oneLinePem.chainFile (wholeBlock ++ wholeBlock)) =
      .ok [sampleUpstream, sampleUpstream] ∧
    (oneLinePem.openings (wholeBlock ++ wholeBlock) = [some sampleUpstream, some sampleUpstream] ↔
      ¬oneLinePem.Hides (wholeBlock ++ wholeBlock)) := by
  have h : decodeCRLChainStrict (oneLinePem.chainFile (wholeBlock ++ wholeBlock)) =
      .ok [sampleUpstream, sampleUpstream] := by decide +kernel
  exact ⟨h, strict_complete_iff oneLinePem h⟩

/-- **A block that was cut short is passed over**: two lines of the file open a CRL block, the first
of which has lost its last line, and the file reads as the one CRL of the second. -/
theorem cut_block_dropped :
    decodeCRLChainStrict (oneLinePem.chainFile (cutBlock ++ wholeBlock)) = .ok [sampleUpstream] ∧
      oneLinePem.openings (cutBlock ++ wholeBlock) = [none, some sampleUpstream] := by
  decide +kernel

end OpenvoxCa.Ca
