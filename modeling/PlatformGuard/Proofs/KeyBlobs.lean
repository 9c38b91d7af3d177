import PlatformGuard.Proofs.Verdicts

/-!
# Key blobs say where they end

A blob names the lengths of its two parts, so whoever reads it from the front of a byte string finds its end,
whatever follows: no blob is a proper front of another, and a key and its blob say the same.  The loader of a
stored manifest finds that end a second time, from two bytes and one byte that it reads on their own before it
knows the rest.  Where the device reads like a memory, both ends are one.
-/

namespace PlatformGuard

/-! ### Sinks -/

/-- What a sink says that is out of room. -/
def Overflow.failure : Overflow → Bytes.Error
  | refuse => .exhausted
  | fill => .internal

namespace Sink

theorem write_of_le {bs : Bytes} {s : Sink} (h : bs.length ≤ s.room) :
    write bs s = (.ok (), { s with held := s.held ++ bs }) := if_pos h

theorem write_of_lt {bs : Bytes} {s : Sink} (h : s.room < bs.length) :
    ∃ t, write bs s = (.error s.overflow.failure, t) := by
  unfold write
  rw [if_neg (Nat.not_le_of_lt h)]
  cases s.overflow with
  | refuse => exact ⟨_, rfl⟩
  | fill => exact ⟨_, rfl⟩

/-- What is written takes room. -/
theorem room_append (s : Sink) (bs : Bytes) :
    ({ s with held := s.held ++ bs } : Sink).room = s.room - bs.length := by
  simp only [room, List.length_append]
  omega

/-- Byte strings are written as a whole if there is room for all of them. -/
theorem writeAll_of_le {parts : List Bytes} {s : Sink} (h : parts.flatten.length ≤ s.room) :
    writeAll parts s = (.ok (), { s with held := s.held ++ parts.flatten }) := by
  induction parts generalizing s with
  | nil =>
    rw [List.flatten_nil, List.append_nil]
    rfl
  | cons bs rest ih =>
    rw [List.flatten_cons, List.length_append] at h
    have hrest : rest.flatten.length ≤ ({ s with held := s.held ++ bs } : Sink).room := by
      rw [room_append]
      omega
    rw [writeAll, Steps.bind_apply, write_of_le (by omega)]
    dsimp only
    rw [ih hrest, List.flatten_cons, List.append_assoc]

/-- Without that room, the first for which it does not suffice is refused. -/
theorem writeAll_of_lt {parts : List Bytes} {s : Sink} (h : s.room < parts.flatten.length) :
    ∃ t, writeAll parts s = (.error s.overflow.failure, t) := by
  induction parts generalizing s with
  | nil => exact absurd h (Nat.not_lt_zero _)
  | cons bs rest ih =>
    rw [writeAll, Steps.bind_apply]
    by_cases hbs : bs.length ≤ s.room
    · rw [write_of_le hbs]
      refine ih (s := { s with held := s.held ++ bs }) ?_
      rw [List.flatten_cons, List.length_append] at h
      rw [room_append]
      omega
    · obtain ⟨t, ht⟩ := write_of_lt (Nat.lt_of_not_le hbs)
      rw [ht]
      exact ⟨t, rfl⟩

end Sink

/-! ### Blobs -/

namespace PublicKey

/-- The parts that make a key are the parts of the key. -/
theorem make_eq_ok {modulus exponent : Bytes} {k : PublicKey} :
    make modulus exponent = .ok k ↔ k.modulus = modulus ∧ k.exponent = exponent := by
  constructor
  · intro h
    unfold make at h
    split at h
    · cases h
      exact ⟨rfl, rfl⟩
    · cases h
  · rintro ⟨rfl, rfl⟩
    exact dif_pos ⟨k.modulus_sized, k.exponent_sized⟩

/-- A key that is read says which front of the bytes it was read from. -/
theorem toBlob_of_ofBlob {bs : Bytes} {k : PublicKey} (h : ofBlob bs = .ok k) :
    k.toBlob = bs.take k.blobLength := by
  obtain ⟨rest, rfl⟩ := ofBlob_eq_ok.1 h
  rw [← k.length_toBlob, List.take_left]

/-- **No blob is a proper front of another.** -/
theorem eq_of_front {k l : PublicKey} (h : k.toBlob <+: l.toBlob) : k = l := by
  obtain ⟨rest, hrest⟩ := h
  have hk : ofBlob l.toBlob = .ok k := ofBlob_eq_ok.2 ⟨rest, hrest.symm⟩
  have hl : ofBlob l.toBlob = .ok l := ofBlob_eq_ok.2 ⟨[], (List.append_nil _).symm⟩
  exact Except.ok.inj (hk.symm.trans hl)

theorem toBlob_injective : Function.Injective toBlob := fun k _ h =>
  eq_of_front (h ▸ List.prefix_refl k.toBlob)

end PublicKey

/-! ### Contents of a device -/

namespace Flash

/-- Whatever is read from the device is what these contents are there.  A read may fail. -/
def Reflects {φ : Type} [Flash φ] (f : φ) (contents : Nat → UInt8) : Prop :=
  ∀ a n bs, Flash.read f a n = .ok bs → bs = (List.range' a.toNat n).map contents

/-- The contents of a memory, with zeros behind its end. -/
def Ram.at (f : Ram) (i : Nat) : UInt8 := f.contents[i]?.getD 0

theorem Ram.reflects (f : Ram) : Reflects f f.at := by
  intro a n bs h
  change readFrom f.contents a n = .ok bs at h
  unfold readFrom at h
  split at h
  · rename_i hroom
    cases h
    refine List.ext_getElem ?_ fun i h₁ h₂ => ?_
    · simp
      omega
    · simp [Ram.at] at h₁ ⊢
      rw [Array.getElem?_eq_getElem (by omega)]
      rfl
  · cases h

variable {φ : Type} [Flash φ]

theorem Faulty.reflects {f : Faulty φ} {contents : Nat → UInt8} (h : Reflects f.device contents) :
    Reflects f contents := by
  intro a n bs hread
  change f.readFrom a n = .ok bs at hread
  unfold Faulty.readFrom at hread
  split at hread
  · cases hread
  · exact h a n bs hread

end Flash

/-! ### The blob behind a manifest -/

namespace StoredManifest

open Manifest

variable {φ : Type} [Flash φ] {s t : StoredManifest φ} {contents : Nat → UInt8}

theorem readAt_reflects (hc : Flash.Reflects s.flash contents) {offset n : Nat} {bs : Bytes}
    (h : s.readAt offset n = .ok bs) : bs = (List.range' (s.base.toNat + offset) n).map contents := by
  unfold readAt at h
  by_cases ho : s.base.toNat + offset < addressLimit
  · rw [if_pos ho] at h
    rw [hc _ _ _ (Steps.mapError_eq_ok.1 h), toNat_add_ofNat ho]
  · rw [if_neg ho] at h
    cases h

/-- What is read from within a range is that part of what is read of the range. -/
theorem readAt_part (hc : Flash.Reflects s.flash contents) {offset i m n : Nat} {bs cs : Bytes}
    (hi : i + m ≤ n) (hm : s.readAt (offset + i) m = .ok bs) (hn : s.readAt offset n = .ok cs) :
    bs = (cs.drop i).take m := by
  rw [readAt_reflects hc hm, readAt_reflects hc hn, ← List.map_drop, ← List.map_take, List.drop_range',
    List.take_range'_of_length_ge (by omega), Nat.mul_one, Nat.add_assoc]

/-- **The end that the loader finds is the end of the blob.** -/
theorem keyBlobLength_of_key (hc : Flash.Reflects s.flash contents) {length n : Nat} {blob : Bytes}
    {k : PublicKey} (hn : s.keyBlobLength length = .ok n) (hb : s.readAt length n = .ok blob)
    (hk : PublicKey.ofBlob blob = .ok k) : n = k.blobLength ∧ blob = k.toBlob := by
  obtain ⟨m, e, hm, -, he, rfl⟩ := keyBlobLength_eq_ok.1 hn
  obtain ⟨rest, hblob⟩ := PublicKey.ofBlob_eq_ok.1 hk
  rw [k.toBlob_eq, List.append_assoc] at hblob
  -- the two length fields that were read on their own are those of the blob
  have hmodulus : m = Bytes.ofNatLE 2 k.modulus.length := by
    rw [readAt_part hc (i := 0) (by omega) hm hb, hblob]
    rfl
  have hm' : Bytes.toNatLE m = k.modulus.length := by
    rw [hmodulus, Bytes.toNatLE_ofNatLE, Nat.mod_eq_of_lt k.modulus_length_lt]
  have hexponent : e = Bytes.ofNatLE 1 k.exponent.length := by
    rw [Nat.add_assoc] at he
    rw [readAt_part hc (by omega) he hb, hblob, hm', ← List.drop_drop]
    change (((k.modulus ++ (Bytes.ofNatLE 1 k.exponent.length ++ k.exponent)) ++ rest).drop
      k.modulus.length).take 1 = _
    rw [List.append_assoc, List.drop_left]
    rfl
  have he' : Bytes.toNatLE e = k.exponent.length := by
    rw [hexponent, Bytes.toNatLE_ofNatLE, Nat.mod_eq_of_lt]
    exact Nat.lt_of_le_of_lt k.exponent_sized.2 (by decide)
  have hlength : 2 + Bytes.toNatLE m + 1 + Bytes.toNatLE e = k.blobLength := by
    rw [hm', he']
    rfl
  refine ⟨hlength, ?_⟩
  rw [PublicKey.toBlob_of_ofBlob hk, ← hlength, ← length_readAt hb, List.take_length]

end StoredManifest

/-! ### The code -/

namespace PublicKey

open Manifest Sink StoredManifest

/-- Blobs are a prefix code for keys, and all that find the end of a blob agree on it. -/
structure Delimited : Prop where
  /-- A key that can be made is read back from its blob, whatever follows. -/
  read_append : ∀ {modulus exponent : Bytes} {k : PublicKey}, make modulus exponent = .ok k →
    k.modulus = modulus ∧ k.exponent = exponent ∧ k.toBlob.length = k.blobLength ∧
      ∀ rest, ofBlob (k.toBlob ++ rest) = .ok k
  /-- The blob of a key that is read is what it was read from. -/
  toBlob_read : ∀ {bs : Bytes} {k : PublicKey}, ofBlob bs = .ok k → k.toBlob = bs.take k.blobLength
  injective : ∀ {k l : PublicKey}, k ≠ l → k.toBlob ≠ l.toBlob
  prefixFree : ∀ {k l : PublicKey}, k.toBlob <+: l.toBlob → k.toBlob = l.toBlob
  write : ∀ (k : PublicKey) (s : Sink), k.blobLength ≤ s.room →
    k.write s = (.ok (), { s with held := s.held ++ k.toBlob })
  write_short : ∀ (k : PublicKey) (s : Sink), s.room < k.blobLength →
    ∃ t, k.write s = (.error s.overflow.failure, t)
  /-- The length that is found before a stored key is read is the length of its blob, so that nothing but the
  blob is read and cached. -/
  stored : ∀ {φ : Type} [Flash φ] {s t : StoredManifest φ} {header : Header} {k : PublicKey}
    {contents : Nat → UInt8}, Flash.Reflects s.flash contents →
    storedKey header s = (.ok (some k), t) →
      s.keyBlobLength header.length.toNat = .ok k.blobLength ∧
      s.readAt header.length.toNat k.blobLength = .ok k.toBlob ∧
      t.caches.key = k.toBlob ++ s.caches.key.drop k.blobLength

theorem stored_blob {φ : Type} [Flash φ] {s t : StoredManifest φ} {header : Header} {k : PublicKey}
    {contents : Nat → UInt8} (hc : Flash.Reflects s.flash contents)
    (h : storedKey header s = (.ok (some k), t)) :
    s.keyBlobLength header.length.toNat = .ok k.blobLength ∧
      s.readAt header.length.toNat k.blobLength = .ok k.toBlob ∧
      t.caches.key = k.toBlob ++ s.caches.key.drop k.blobLength := by
  cases hf : header.format with
  | legacy =>
    have hnone := storedKey_legacy (s := s) hf
    rw [h] at hnone
    cases hnone
  | v2 =>
    obtain ⟨blob, key, hblob, hk, hkey⟩ := (storedKey_eq_ok hf).1 h
    obtain rfl : k = key := Option.some.inj hkey
    obtain ⟨n, hn, -, hread, rfl⟩ := cacheKey_eq_ok.1 hblob
    obtain ⟨rfl, rfl⟩ := keyBlobLength_of_key hc hn hread hk
    exact ⟨hn, hread, rfl⟩

/-- **Key blobs are a prefix code.** -/
theorem blobs_delimited : Delimited where
  read_append {modulus exponent k} h := by
    obtain ⟨hm, he⟩ := make_eq_ok.1 h
    exact ⟨hm, he, k.length_toBlob, fun rest => ofBlob_eq_ok.2 ⟨rest, rfl⟩⟩
  toBlob_read := toBlob_of_ofBlob
  injective hne h := hne (toBlob_injective h)
  prefixFree h := congrArg toBlob (eq_of_front h)
  write k s h := writeAll_of_le (k.length_toBlob.symm ▸ h)
  write_short k s h := writeAll_of_lt (k.length_toBlob.symm ▸ h)
  stored := stored_blob

/-- A header that ends where it begins, in front of a key. -/
def keyHeader : Header := ⟨1, .v2, 0, 0, .rsaPkcs1Sha256⟩

/-- A key between other bytes, in a device that fails to program. -/
def keyStored : StoredManifest (Flash.Faulty Flash.Ram) :=
  { flash :=
      { device := ⟨([7, 8] ++ idleKey.toBlob ++ [9]).toArray⟩
        faults := { failure := some .internal, calls := [.program] } }
    base := 1
    caches := ⟨[], [], [], Bytes.zeros 300⟩ }

/-- The blob ends where the loader says, and not with the byte behind it. -/
theorem keyStored_delimited : ∃ t, storedKey keyHeader keyStored = (.ok (some idleKey), t) ∧
    keyStored.keyBlobLength 1 = .ok 260 ∧ t.caches.key = idleKey.toBlob ++ Bytes.zeros 40 := by
  have hblob : idleKey.blobLength = 260 := by decide +kernel
  have hparts : ∀ blob : Bytes, ([7, 8] ++ blob ++ [9]).toArray.toList = [7] ++ (([8] ++ blob) ++ [9]) :=
    fun blob => by simp
  have hsize : ([7, 8] ++ idleKey.toBlob ++ [9]).toArray.size ≤ addressLimit := by
    rw [List.size_toArray, List.length_append, List.length_append, length_toBlob, hblob]
    decide
  -- only programming fails, so the device reads like the memory in it
  have hholds : Flash.Holds keyStored.flash keyStored.base ([8] ++ idleKey.toBlob) :=
    Flash.Ram.holds (f := keyStored.flash.device) [7] [9] (hparts _) rfl hsize
  have hroom : idleKey.toBlob.length ≤ keyStored.caches.key.length := by
    rw [length_toBlob, hblob]
    exact Nat.le_trans (by decide) (Nat.le_of_eq List.length_replicate.symm)
  have hend : ([8] : Bytes).length = keyHeader.length.toNat := rfl
  have hkey : (storedKey keyHeader keyStored).1 = .ok (some idleKey) :=
    storedKey_of_holds rfl hend hholds hroom
  rcases hstored : storedKey keyHeader keyStored with ⟨r, t⟩
  rw [hstored] at hkey
  dsimp only at hkey
  subst hkey
  have hcontents := Flash.Faulty.reflects (f := keyStored.flash) (Flash.Ram.reflects _)
  obtain ⟨hlength, -, hcached⟩ := blobs_delimited.stored hcontents hstored
  rw [hblob] at hlength hcached
  have hrest : keyStored.caches.key.drop 260 = Bytes.zeros 40 := List.drop_replicate
  rw [hrest] at hcached
  exact ⟨t, rfl, hlength, hcached⟩

end PublicKey

end PlatformGuard
