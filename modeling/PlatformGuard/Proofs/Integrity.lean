import PlatformGuard.Manifest.Integrity
import PlatformGuard.Proofs.Drafts
import PlatformGuard.Proofs.Verdicts

/-!
# What the verification of an image depends on

An image is read from the flash in pieces, region by region, and every piece goes to the hash engine.  Where
the pieces are cut makes no difference: consecutive pieces (`Chain`) hold the bytes of what they cut, and one
of them sticks out of the flash exactly if the whole does.  A verification with any pieces that cut the
regions (`Cuts`) has therefore one outcome, and it is the program's own with the pieces that it reads.
-/

namespace PlatformGuard

/-! ### Contents -/

namespace Flash

/-- A device that is read like memory with these contents. -/
def Presents {φ : Type} [Flash φ] (f : φ) (contents : Array UInt8) : Prop :=
  ∀ a n, Flash.read f a n = readFrom contents a n

theorem Rom.presents (f : Rom) : Presents f f.contents := fun _ _ => rfl

/-- The bytes of regions, one region behind the other. -/
def gather (contents : Array UInt8) (rs : List Region) : Bytes :=
  rs.flatMap fun r => (contents.extract r.address.toNat r.limit).toList

@[simp]
theorem gather_append (contents : Array UInt8) (rs ss : List Region) :
    gather contents (rs ++ ss) = gather contents rs ++ gather contents ss :=
  List.flatMap_append

end Flash

/-! ### Pieces of regions -/

namespace Region

/-- Pieces of which each begins where the one before it ends. -/
inductive Chain : Nat → List Region → Nat → Prop where
  | nil (first : Nat) : Chain first [] first
  | cons {c : Region} {cs : List Region} {last : Nat} :
      Chain c.limit cs last → Chain c.address.toNat (c :: cs) last

/-- Pieces that make up one region after the other. -/
inductive Cuts : List Region → List Region → Prop where
  | nil : Cuts [] []
  | cons {r : Region} {rs cs ds : List Region} :
      Chain r.address.toNat cs r.limit → Cuts rs ds → Cuts (r :: rs) (cs ++ ds)

namespace Chain

variable {first last : Nat} {cs : List Region}

theorem le (h : Chain first cs last) : first ≤ last := by
  induction h with
  | nil => exact Nat.le_refl _
  | @cons c _ _ _ ih => exact Nat.le_trans c.address_le_limit ih

/-- No piece ends behind the last one. -/
theorem limit_le (h : Chain first cs last) : ∀ c ∈ cs, c.limit ≤ last := by
  induction h with
  | nil => nofun
  | cons h ih =>
    intro c hc
    rcases List.mem_cons.1 hc with rfl | hc
    · exact h.le
    · exact ih c hc

/-- The last piece ends where the whole does. -/
theorem exists_limit_eq (h : Chain first cs last) (hne : first ≠ last) : ∃ c ∈ cs, c.limit = last := by
  induction h with
  | nil => exact absurd rfl hne
  | @cons c cs last h ih =>
    by_cases hc : c.limit = last
    · exact ⟨c, List.mem_cons_self, hc⟩
    · obtain ⟨d, hd, hlast⟩ := ih hc
      exact ⟨d, List.mem_cons_of_mem _ hd, hlast⟩

/-- Consecutive pieces hold the bytes from the first address to the last. -/
theorem gather_eq (h : Chain first cs last) (contents : Array UInt8) :
    Flash.gather contents cs = (contents.extract first last).toList := by
  induction h with
  | nil first =>
    have hempty : contents.extract first first = #[] :=
      Array.extract_eq_empty_of_le (Nat.min_le_left _ _)
    rw [hempty]
    rfl
  | @cons c cs last h ih =>
    have hjoin : contents.extract c.address.toNat c.limit ++ contents.extract c.limit last =
        contents.extract c.address.toNat last := by
      rw [Array.extract_append_extract, Nat.min_eq_left c.address_le_limit, Nat.max_eq_right h.le]
    rw [← hjoin, Array.toList_append, ← ih]
    rfl

end Chain

namespace Cuts

variable {rs cs : List Region}

/-- Pieces hold the bytes of what they cut. -/
theorem gather_eq (h : Cuts rs cs) (contents : Array UInt8) :
    Flash.gather contents cs = Flash.gather contents rs := by
  induction h with
  | nil => rfl
  | cons hc _ ih =>
    rw [Flash.gather_append, hc.gather_eq, ih]
    rfl

/-- Some piece ends behind an address exactly if some region does. -/
theorem exists_limit_gt (h : Cuts rs cs) (hpos : ∀ r ∈ rs, 0 < r.length.toNat) (n : Nat) :
    (∃ c ∈ cs, n < c.limit) ↔ ∃ r ∈ rs, n < r.limit := by
  induction h with
  | nil => rfl
  | @cons r rs cs ds hc _ ih =>
    have hfirst : (∃ c ∈ cs, n < c.limit) ↔ n < r.limit := by
      constructor
      · rintro ⟨c, hmem, hlt⟩
        exact Nat.lt_of_lt_of_le hlt (hc.limit_le c hmem)
      · intro hlt
        have hne : r.address.toNat ≠ r.limit := by
          have := hpos r List.mem_cons_self
          unfold limit
          omega
        obtain ⟨c, hmem, hlast⟩ := hc.exists_limit_eq hne
        exact ⟨c, hmem, hlast.symm ▸ hlt⟩
    have hrest := ih fun s hs => hpos s (List.mem_cons_of_mem _ hs)
    simp only [List.mem_append, or_and_right, exists_or, List.mem_cons, exists_eq_left, hfirst, hrest]

end Cuts

end Region

namespace Manifest.Image

open Region

/-! ### The pieces that are read -/

/-- The pieces in which `length` bytes are read from an address on. -/
def chunks (address : UInt32) (length : Nat) : List Region :=
  if length = 0 then []
  else
    let n := min length chunkSize
    ⟨address, UInt32.ofNat n⟩ :: chunks (address + UInt32.ofNat n) (length - n)
termination_by length
decreasing_by
  simp only [chunkSize]
  omega

/-- All pieces that are read for an image, in order. -/
def reads (i : Image) : List Region := i.regions.flatMap fun r => chunks r.address r.length.toNat

/-- The size of a piece, as a number of 32 bits, is itself. -/
theorem toNat_size (length : Nat) : (UInt32.ofNat (min length chunkSize)).toNat = min length chunkSize := by
  refine UInt32.toNat_ofNat_of_lt' ?_
  simp only [chunkSize, UInt32.size]
  omega

/-- Inside the address space the pieces are consecutive. -/
theorem chain_chunks (address : UInt32) (length : Nat) (h : address.toNat + length < addressLimit) :
    Chain address.toNat (chunks address length) (address.toNat + length) := by
  unfold chunks
  by_cases hl : length = 0
  · rw [if_pos hl, hl]
    exact .nil _
  · rw [if_neg hl]
    have hn := toNat_size length
    have hle : min length chunkSize ≤ length := Nat.min_le_left _ _
    have hnext : (address + UInt32.ofNat (min length chunkSize)).toNat =
        address.toNat + min length chunkSize := toNat_add_ofNat (by omega)
    have hrest := chain_chunks (address + UInt32.ofNat (min length chunkSize))
      (length - min length chunkSize) (by omega)
    have hlimit : (⟨address, UInt32.ofNat (min length chunkSize)⟩ : Region).limit =
        (address + UInt32.ofNat (min length chunkSize)).toNat := by
      rw [hnext, limit, hn]
    have hlast : (address + UInt32.ofNat (min length chunkSize)).toNat + (length - min length chunkSize) =
        address.toNat + length := by omega
    rw [hlast, ← hlimit] at hrest
    exact .cons hrest
termination_by length
decreasing_by
  simp only [chunkSize]
  omega

theorem length_chunks (address : UInt32) (length : Nat) :
    ∀ c ∈ chunks address length, 0 < c.length.toNat ∧ c.length.toNat ≤ chunkSize := by
  unfold chunks
  by_cases hl : length = 0
  · rw [if_pos hl]
    nofun
  · rw [if_neg hl]
    intro c hc
    rcases List.mem_cons.1 hc with rfl | hc
    · rw [toNat_size]
      simp only [chunkSize]
      omega
    · exact length_chunks _ _ c hc
termination_by length
decreasing_by
  simp only [chunkSize]
  omega

/-- What is known about the regions of an image that was read. -/
def Bounded (r : Region) : Prop := 0 < r.length.toNat ∧ r.limit < addressLimit

theorem bounded_of_ofBounds? {first last : UInt32} {r : Region} (h : ofBounds? first last = some r) :
    Bounded r := by
  have haddress := address_ofBounds? h
  have hlimit := limit_ofBounds? h
  have hlt := UInt32.lt_iff_toNat_lt.1 (ofBounds?_eq_some.1 h).1
  refine ⟨?_, hlimit ▸ last.toNat_lt⟩
  rw [← haddress] at hlt
  unfold limit at hlimit
  omega

open Decoder in
theorem ensures_readRegion : readRegion.Ensures Bounded := by
  refine ensures_bind fun first => ensures_bind fun last => ?_
  intro s r rest h
  exact bounded_of_ofBounds? (on_some?_ok.1 h).1

open Decoder in
theorem ensures_readRegions (n : Nat) (seen : List Region) :
    (readRegions n seen).Ensures fun regions => ∀ r ∈ regions, Bounded r := by
  induction n generalizing seen with
  | zero => exact ensures_pure nofun
  | succ n ih =>
    refine ensures_readRegion.bind fun region hregion => ensures_bind fun _ => ?_
    refine (ih _).bind fun regions hregions => ensures_pure ?_
    exact List.forall_mem_cons.2 ⟨hregion, hregions⟩

open Decoder in
/-- The regions of an image that was read are not empty and end inside the address space. -/
theorem ensures_regions : decoder.Ensures fun i => ∀ r ∈ i.regions, Bounded r := by
  unfold decoder
  refine ensures_bind fun hashType => ensures_bind fun count => ensures_bind fun flags =>
    ensures_bind fun _ => ensures_bind fun algorithm => ensures_bind fun _ => ensures_bind fun _ => ?_
  rw [ite_bind]
  refine ensures_bind fun check => ensures_bind fun block => ?_
  intro s i rest h
  obtain ⟨regions, s₁, hlift, h⟩ := on_bind_ok.1 h
  cases h
  have hread := (on_lift_ok.1 hlift).1
  exact ensures_readRegions _ _ (Prod.ext hread rfl)

/-- The pieces that are read make up the regions. -/
theorem cuts_flatMap_chunks {rs : List Region} (h : ∀ r ∈ rs, Bounded r) :
    Cuts rs (rs.flatMap fun r => chunks r.address r.length.toNat) := by
  induction rs with
  | nil => exact .nil
  | cons r rs ih =>
    obtain ⟨hr, hrs⟩ := List.forall_mem_cons.1 h
    exact .cons (chain_chunks _ _ hr.2) (ih hrs)

/-- What holds of every read of an image: it asks for a piece of at least one byte and at most one chunk,
all of it at addresses of 32 bits. -/
theorem bounded_reads {i : Image} (h : ∀ r ∈ i.regions, Bounded r) :
    ∀ c ∈ i.reads, Bounded c ∧ c.length.toNat ≤ chunkSize := by
  intro c hc
  obtain ⟨r, hr, hchunk⟩ := List.mem_flatMap.1 hc
  obtain ⟨hpos, hle⟩ := length_chunks _ _ c hchunk
  have hlimit := (chain_chunks r.address r.length.toNat (h r hr).2).limit_le c hchunk
  exact ⟨⟨hpos, Nat.lt_of_le_of_lt hlimit (h r hr).2⟩, hle⟩

/-! ### Feeding pieces -/

section feeding
variable {φ η ν : Type} [Flash φ] [Hash.Engine η] [Signature.Verifier ν]

/-- Reads a piece and feeds it to the open session. -/
def feedPiece (f : φ) (c : Region) : ExceptT Error (StateM η) Unit :=
  match Flash.read f c.address c.length.toNat with
  | .error e => throw (.flash e)
  | .ok bs => ExceptT.adapt (fun _ => .verifyFailed) (Hash.Engine.write bs)

/-- Reads pieces in turn and feeds each to the open session. -/
def feedPieces (f : φ) (cs : List Region) : ExceptT Error (StateM η) Unit := cs.forM (feedPiece f)

/-- The digest of the bytes of the pieces. -/
def digestBy (a : Hash.Algorithm) (f : φ) (cs : List Region) : ExceptT Error (StateM η) Bytes := do
  ExceptT.adapt (fun _ => .verifyFailed) (Hash.Engine.start a)
  Hash.feeding (feedPieces f cs)
  ExceptT.adapt (fun _ => .verifyFailed) (Hash.close a a.size)

/-- Checks the digest of an image. -/
def accept (i : Image) (digest : Bytes) : ExceptT Error (StateM (Engines η ν)) Unit :=
  match i.check with
  | .hash expected => if Bytes.ctEq digest expected then pure () else throw .verifyFailed
  | .signature signature key =>
    Engines.onSignature (fun _ => .verifyFailed)
      (Signature.Verifier.verify ⟨key, signature, digest⟩)

/-- Checks that the image in the flash is intact, reading it in the given pieces. -/
def verifyBy (i : Image) (f : φ) (cs : List Region) : ExceptT Error (StateM (Engines η ν)) Unit := do
  let digest ← Engines.onHash (fun e => e) (digestBy i.algorithm f cs)
  i.accept digest

theorem feedFlash_eq (f : φ) (address : UInt32) (length : Nat) :
    (feedFlash f address length : ExceptT Error (StateM η) Unit) = feedPieces f (chunks address length) := by
  unfold feedFlash chunks
  by_cases hl : length = 0
  · rw [if_pos hl, if_pos hl]
    rfl
  · rw [if_neg hl, if_neg hl]
    simp only [feedPieces, List.forM_eq_forM, List.forM_cons, feedPiece, toNat_size]
    cases Flash.read f address (min length chunkSize) with
    | error x => rfl
    | ok bs =>
      have hrest := feedFlash_eq f (address + UInt32.ofNat (min length chunkSize))
        (length - min length chunkSize)
      exact congrArg (fun rest => ExceptT.adapt (fun _ => .verifyFailed) (Hash.Engine.write bs) >>=
        fun _ => rest) hrest
termination_by length
decreasing_by
  simp only [chunkSize]
  omega

theorem feedRegions_eq (f : φ) (rs : List Region) :
    (feedRegions f rs : ExceptT Error (StateM η) Unit) =
      feedPieces f (rs.flatMap fun r => chunks r.address r.length.toNat) := by
  induction rs with
  | nil => rfl
  | cons r rs ih =>
    rw [feedRegions, feedFlash_eq, ih, List.flatMap_cons]
    exact (List.forM_append ..).symm

/-- The program reads the pieces that are said to be read. -/
theorem verify_eq (i : Image) (f : φ) (e : Engines η ν) : i.verify f e = i.verifyBy f i.reads e := by
  unfold verify verifyBy digest digestBy
  rw [feedRegions_eq]
  rfl

end feeding

/-! ### Digests of pieces -/

section digesting
variable {φ η : Type} [Flash φ] [Hash.Engine η] [Hash.Lawful η] {f : φ} {contents : Array UInt8}
  {P : η → Prop} {a : Hash.Algorithm} {w : Bytes} {e : η}

open Hash Hash.Lawful

/-- A piece inside the flash is read and taken. -/
theorem feedPiece_inside (hf : Flash.Presents f contents) (hP : Reliable P) {c : Region}
    (hc : c.limit ≤ contents.size) (he : P e) (hs : session e = some (a, w)) :
    ∃ e', feedPiece f c e = (.ok (), e') ∧ P e' ∧
      session e' = some (a, w ++ (contents.extract c.address.toNat c.limit).toList) := by
  have hread : Flash.read f c.address c.length.toNat =
      .ok (contents.extract c.address.toNat c.limit).toList := (hf _ _).trans (if_pos hc)
  obtain ⟨e', hwrite, he'⟩ := hP.write (contents.extract c.address.toNat c.limit).toList he hs
  refine ⟨e', ?_, he', session_write hs hwrite⟩
  unfold feedPiece
  rw [hread]
  exact Steps.adapt_eq_ok.2 hwrite

omit [Hash.Lawful η] in
theorem feedPiece_outside (hf : Flash.Presents f contents) {c : Region} (hc : contents.size < c.limit)
    (e : η) : feedPiece f c e = (.error (.flash .outOfRange), e) := by
  have hread : Flash.read f c.address c.length.toNat = .error .outOfRange :=
    (hf _ _).trans (if_neg (Nat.not_le_of_lt hc))
  unfold feedPiece
  rw [hread]
  rfl

theorem feedPieces_inside (hf : Flash.Presents f contents) (hP : Reliable P) {cs : List Region}
    (hcs : ∀ c ∈ cs, c.limit ≤ contents.size) (he : P e) (hs : session e = some (a, w)) :
    ∃ e', feedPieces f cs e = (.ok (), e') ∧ P e' ∧
      session e' = some (a, w ++ Flash.gather contents cs) := by
  induction cs generalizing e w with
  | nil => exact ⟨e, rfl, he, by rw [hs, Flash.gather, List.flatMap_nil, List.append_nil]⟩
  | cons c cs ih =>
    obtain ⟨hc, hcs⟩ := List.forall_mem_cons.1 hcs
    obtain ⟨e₁, hpiece, he₁, hs₁⟩ := feedPiece_inside hf hP hc he hs
    obtain ⟨e', hrest, he', hs'⟩ := ih hcs he₁ hs₁
    refine ⟨e', Steps.bind_eq_ok.2 ⟨(), e₁, hpiece, hrest⟩, he', ?_⟩
    rw [hs', List.append_assoc]
    rfl

/-- The first piece that is not inside the flash ends the run. -/
theorem feedPieces_outside (hf : Flash.Presents f contents) (hP : Reliable P) {cs : List Region}
    (hcs : ∃ c ∈ cs, contents.size < c.limit) (he : P e) (hs : session e = some (a, w)) :
    ∃ e', feedPieces f cs e = (.error (.flash .outOfRange), e') := by
  induction cs generalizing e w with
  | nil => simp at hcs
  | cons c cs ih =>
    by_cases hc : contents.size < c.limit
    · exact ⟨e, Steps.bind_eq_error.2 (.inl (feedPiece_outside hf hc e))⟩
    · obtain ⟨e₁, hpiece, he₁, hs₁⟩ := feedPiece_inside hf hP (Nat.le_of_not_lt hc) he hs
      obtain ⟨d, hd, hlt⟩ := hcs
      have hmem : d ∈ cs := by
        rcases List.mem_cons.1 hd with rfl | hmem
        · exact absurd hlt hc
        · exact hmem
      obtain ⟨e', hrest⟩ := ih ⟨d, hmem, hlt⟩ he₁ hs₁
      exact ⟨e', Steps.bind_eq_error.2 (.inr ⟨(), e₁, hpiece, hrest⟩)⟩

theorem digestBy_inside (hf : Flash.Presents f contents) (hw : Working e) {cs : List Region}
    (hcs : ∀ c ∈ cs, c.limit ≤ contents.size) (a : Algorithm) :
    ∃ e', digestBy a f cs e = (.ok (a.digest (Flash.gather contents cs)), e') ∧ Working e' := by
  obtain ⟨hs, P, hP, he⟩ := hw
  obtain ⟨e₁, hstart, he₁⟩ := hP.start a he hs
  obtain ⟨e₂, hfeed, he₂, hs₂⟩ := feedPieces_inside hf hP hcs he₁ (session_start hstart)
  obtain ⟨e₃, hclose, hw₃⟩ := hP.close he₂ hs₂
  exact ⟨e₃, Steps.bind_eq_ok.2 ⟨(), e₁, Steps.adapt_eq_ok.2 hstart,
    Steps.bind_eq_ok.2 ⟨(), e₂, feeding_of_ok hfeed, Steps.adapt_eq_ok.2 hclose⟩⟩, hw₃⟩

theorem digestBy_outside (hf : Flash.Presents f contents) (hw : Working e) {cs : List Region}
    (hcs : ∃ c ∈ cs, contents.size < c.limit) (a : Algorithm) :
    ∃ e', digestBy a f cs e = (.error (.flash .outOfRange), e') := by
  obtain ⟨hs, P, hP, he⟩ := hw
  obtain ⟨e₁, hstart, he₁⟩ := hP.start a he hs
  obtain ⟨e₂, hfeed⟩ := feedPieces_outside hf hP hcs he₁ (session_start hstart)
  have hfeeding : feeding (feedPieces f cs) e₁ = (.error (.flash .outOfRange), Engine.cancel e₂) := by
    unfold feeding
    rw [hfeed]
  exact ⟨Engine.cancel e₂, Steps.bind_eq_error.2 (.inr ⟨(), e₁, Steps.adapt_eq_ok.2 hstart,
    Steps.bind_eq_error.2 (.inl hfeeding)⟩)⟩

end digesting

/-! ### Verification -/

section verifying
variable {φ η ν : Type} [Flash φ] [Hash.Engine η] [Hash.Lawful η] [Signature.Verifier ν]

open Hash Signature

/-- How the check of a digest has to end, and with which verifier. -/
def judge (i : Image) (digest : Bytes) (t : Transcript ν) : Except Error Unit × Transcript ν :=
  match i.check with
  | .hash stored => (if digest = stored then .ok () else .error .verifyFailed, t)
  | .signature signature key =>
    let answer := Verifier.verify ⟨key, signature, digest⟩ t.verifier
    (answer.1.mapError fun _ => .verifyFailed, ⟨answer.2, t.asked ++ [⟨key, signature, digest⟩]⟩)

/-- How the verification of an image has to end on flash contents. -/
def outcome (i : Image) (contents : Array UInt8) (t : Transcript ν) :
    Except Error Unit × Transcript ν :=
  if ∃ r ∈ i.regions, contents.size < r.limit then (.error (.flash .outOfRange), t)
  else i.judge (i.algorithm.digest (Flash.gather contents i.regions)) t

/-- A run on engines ends with a result and with a verifier, whatever becomes of the hash engine. -/
def EndsWith (run : Except Error Unit × Engines η (Transcript ν)) (o : Except Error Unit × Transcript ν) :
    Prop := ∃ h, run = (o.1, ⟨h, o.2⟩)

variable {f : φ} {contents : Array UInt8} {i : Image} {e : Engines η (Transcript ν)}

omit [Hash.Engine η] [Hash.Lawful η] in
theorem accept_endsWith (digest : Bytes) (g : η) (t : Transcript ν) :
    EndsWith (i.accept digest ⟨g, t⟩) (i.judge digest t) := by
  refine ⟨g, ?_⟩
  unfold accept judge
  cases i.check with
  | hash stored =>
    dsimp only
    by_cases hd : digest = stored
    · rw [if_pos (Bytes.ctEq_iff.2 hd), if_pos hd]
      rfl
    · rw [if_neg (mt Bytes.ctEq_iff.1 hd), if_neg hd]
      rfl
  | signature signature key => rfl

/-- However the regions of an image are cut, its verification has the one outcome. -/
theorem verifyBy_endsWith (hi : ∀ r ∈ i.regions, Bounded r) (hf : Flash.Presents f contents)
    (hw : Working e.hash) {cs : List Region} (hcs : Cuts i.regions cs) :
    EndsWith (i.verifyBy f cs e) (i.outcome contents e.signature) := by
  -- whether a piece sticks out does not depend on the cut
  have hsome := hcs.exists_limit_gt (fun r hr => (hi r hr).1) contents.size
  by_cases ho : ∃ r ∈ i.regions, contents.size < r.limit
  · obtain ⟨h, hd⟩ := digestBy_outside hf hw (hsome.2 ho) i.algorithm
    refine ⟨h, ?_⟩
    have hhash : Engines.onHash (fun e => e) (digestBy i.algorithm f cs) e =
        (.error (.flash .outOfRange), ⟨h, e.signature⟩) := by
      unfold Engines.onHash
      rw [hd]
      rfl
    rw [outcome, if_pos ho]
    exact Steps.bind_eq_error.2 (.inl hhash)
  · have hpieces : ∀ c ∈ cs, c.limit ≤ contents.size := fun c hc =>
      Nat.le_of_not_lt fun hlt => ho (hsome.1 ⟨c, hc, hlt⟩)
    obtain ⟨h, hd, -⟩ := digestBy_inside hf hw hpieces i.algorithm
    rw [hcs.gather_eq] at hd
    have hhash : Engines.onHash (fun e => e) (digestBy i.algorithm f cs) e =
        (.ok (i.algorithm.digest (Flash.gather contents i.regions)), ⟨h, e.signature⟩) :=
      Engines.onHash_ok.2 ⟨hd, rfl⟩
    unfold verifyBy
    rw [Steps.bind_apply, hhash, outcome, if_neg ho]
    exact accept_endsWith _ h e.signature

/-- **Verification of an image is exact.**  The outcome is a function of the image, of what the flash holds,
and of the verifier; the program reads pieces of a few bytes inside the address space, and any other pieces
that make up the regions have the same outcome. -/
theorem verify_exact {s rest : Bytes} (hi : decoder.on s = (.ok i, rest))
    (hf : Flash.Presents f contents) (hw : Working e.hash) :
    EndsWith (i.verify f e) (i.outcome contents e.signature) ∧
    (∀ cs, Cuts i.regions cs → EndsWith (i.verifyBy f cs e) (i.outcome contents e.signature)) ∧
    i.verify f e = i.verifyBy f i.reads e ∧ Cuts i.regions i.reads ∧
    ∀ c ∈ i.reads, Bounded c ∧ c.length.toNat ≤ chunkSize := by
  have hb : ∀ r ∈ i.regions, Bounded r := ensures_regions hi
  have hcuts : Cuts i.regions i.reads := cuts_flatMap_chunks hb
  refine ⟨?_, fun cs hcs => verifyBy_endsWith hb hf hw hcs, verify_eq i f e, hcuts, bounded_reads hb⟩
  rw [verify_eq]
  exact verifyBy_endsWith hb hf hw hcuts

end verifying

/-- An image of two regions, the higher one first. -/
def swapped : Image :=
  { algorithm := .sha256
    validateOnBoot := false
    check := .hash (Hash.Algorithm.sha256.digest [30, 40, 10])
    regions := [⟨2, 2⟩, ⟨0, 1⟩] }

/-- The record of this image. -/
def swappedRecord : Bytes :=
  [0, 2, 0, 0] ++ Hash.Algorithm.sha256.digest [30, 40, 10] ++
    (Bytes.be32 2 ++ Bytes.be32 4) ++ (Bytes.be32 0 ++ Bytes.be32 1)

/-- The verification of this image on flash contents, with a verifier that refuses everything. -/
def verifySwapped (contents : Array UInt8) : Except Error Unit :=
  (swapped.verify (⟨contents⟩ : Flash.Rom) (Engines.deciding (.error .badSignature))).1

/-- The image is intact where its bytes lie in the order of its regions, and out of range where the flash ends
inside the first of them. -/
theorem swapped_verified : decoder.on swappedRecord = (.ok swapped, []) ∧
    verifySwapped #[10, 20, 30, 40] = .ok () ∧
    verifySwapped #[10, 20, 30, 41] = .error .verifyFailed ∧
    verifySwapped #[10, 20, 30] = .error (.flash .outOfRange) := by
  have hread : decoder.on swappedRecord = (.ok swapped, []) := by decide +kernel
  have hverify : ∀ contents, verifySwapped contents =
      (swapped.outcome contents (Engines.deciding (.error .badSignature)).signature).1 := by
    intro contents
    obtain ⟨h, hv⟩ := (verify_exact (e := Engines.deciding (.error .badSignature)) hread
      (Flash.Rom.presents ⟨contents⟩) Hash.working_idle).1
    exact congrArg Prod.fst hv
  have hinside : ∀ b : UInt8, ¬∃ r ∈ swapped.regions, #[10, 20, 30, b].size < r.limit :=
    fun _ => show ¬∃ r ∈ swapped.regions, 4 < r.limit by decide
  have hcompare : ∀ b, verifySwapped #[10, 20, 30, b] =
      if Hash.Algorithm.sha256.digest [30, b, 10] = Hash.Algorithm.sha256.digest [30, 40, 10] then .ok ()
      else .error .verifyFailed := by
    intro b
    rw [hverify, outcome, if_neg (hinside b)]
    rfl
  have hd : ¬Hash.Algorithm.sha256.digest [30, 41, 10] = Hash.Algorithm.sha256.digest [30, 40, 10] := by
    decide +kernel
  refine ⟨hread, ?_, ?_, ?_⟩
  · rw [hcompare, if_pos rfl]
  · rw [hcompare, if_neg hd]
  · rw [hverify, outcome, if_pos (by decide)]

end Manifest.Image

end PlatformGuard
