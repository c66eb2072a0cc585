import XchainWallet.Uri.FountainParts
import XchainWallet.Uri.UrFrame

/-!
# Runs of the UR decoder

Whatever frames are scanned, the assembler of the decoder is that of the parts that were handed to
it (`assembler_scan`). The first part that it takes fixes its header for good, so a run with a given
header at its end is one that had no other (`assemble_keeps`). Where the parts with that header have
numbers from one on, no index is held that the message does not have, and where they are parts of a
transmission, the pure ones among them make it whole. A part of number zero has the index -1, which
is never taken out again, and then the message is never whole (`Blocked`).
-/

namespace XchainWallet

open Wire Checks

/-- The header that a part declares. -/
def FountainPart.header (part : FountainPart) : Option (List ℤ) × ℕ × ℕ × ℕ :=
  (some (indexesBelow part.seqLen), part.messageLength, part.checksum, part.fragment.length)

theorem indexesBelow_inj {m n : ℕ} (h : indexesBelow m = indexesBelow n) : m = n := by
  have hlength := congrArg List.length h
  rwa [length_indexesBelow, length_indexesBelow] at hlength

namespace FountainAssembler

section Header

variable {a started : FountainAssembler} {part : FountainPart} {chooser : PartChooser}
  {H : Option (List ℤ) × ℕ × ℕ × ℕ}

/-- The assembler expects the indexes of some number of fragments. -/
def Started (a : FountainAssembler) : Prop := ∃ n, a.expectedIndexes = some (indexesBelow n)

/-- A part that is taken has the header that the assembler has then. -/
theorem header_of_validate (hfresh : a = create ∨ a.Started)
    (h : a.validate part = .ok (started, true)) : started.header = part.header := by
  rcases hfresh with rfl | ⟨n, hn⟩
  · simp only [validate, create, bind_eq_ok, refuseIf_eq_ok, pure_eq_ok, Prod.mk.injEq,
      and_true] at h
    obtain ⟨_, -, _, -, _, -, _, -, rfl⟩ := h
    rfl
  · simp only [validate, hn, Except.ok.injEq, Prod.mk.injEq, decide_eq_true_eq,
      length_indexesBelow] at h
    obtain ⟨rfl, hseqLen, hlength, hchecksum, hfragment⟩ := h
    rw [header, FountainPart.header, hn, hseqLen, hlength, hchecksum, hfragment]

/-- Once the header is set, no part changes it. -/
theorem header_receive (chooser : PartChooser) (h : a.Started) (part : FountainPart) :
    (a.receive chooser part).1.header = a.header := by
  cases hcomplete : a.complete with
  | true => rw [receive_of_complete _ hcomplete]
  | false =>
    by_cases htaken : ∃ started, a.validate part = .ok (started, true)
    · obtain ⟨started, hvalidate⟩ := htaken
      rw [(receive_of_taken hcomplete hvalidate).1, header_drain]
      obtain ⟨n, hn⟩ := h
      simp only [validate, hn, Except.ok.injEq, Prod.mk.injEq] at hvalidate
      obtain ⟨rfl, -⟩ := hvalidate
      rfl
    · rw [receive_of_not_taken fun started hvalidate => htaken ⟨started, hvalidate⟩]

/-- The assembler has a header, and another than the given one. -/
def Elsewhere (H : Option (List ℤ) × ℕ × ℕ × ℕ) (a : FountainAssembler) : Prop :=
  a.Started ∧ a.header ≠ H

theorem elsewhere_receive (h : Elsewhere H a) (part : FountainPart) :
    Elsewhere H (a.receive chooser part).1 := by
  obtain ⟨⟨n, hn⟩, hne⟩ := h
  have hheader := header_receive chooser ⟨n, hn⟩ part
  exact ⟨⟨n, (congrArg Prod.fst hheader).trans hn⟩, by rwa [hheader]⟩

/-- Each part that is taken, in the state that it meets, is good. -/
def TakesOnly (chooser : PartChooser) (good : FountainPart → Prop) :
    FountainAssembler → List FountainPart → Prop
  | _, [] => True
  | a, part :: parts =>
    (∀ started, a.complete = false → a.validate part = .ok (started, true) → good part) ∧
      TakesOnly chooser good (a.receive chooser part).1 parts

theorem TakesOnly.of_append {good : FountainPart → Prop} {before after : List FountainPart}
    (h : TakesOnly chooser good a (before ++ after)) : TakesOnly chooser good a before := by
  induction before generalizing a with
  | nil => trivial
  | cons part before ih => exact ⟨h.1, ih h.2⟩

/-- **Runs with a header.** Where good parts with that header keep `M`, an assembler that takes only
good parts, and has the header in the end, has `M`. -/
theorem assemble_keeps (chooser : PartChooser) {M : FountainAssembler → Prop}
    (hM : ∀ a, M a → a.header = H ∧ a.Started) {good : FountainPart → Prop}
    (hstep : ∀ a part started, a = create ∨ M a → a.complete = false →
      a.validate part = .ok (started, true) → part.header = H → good part →
      M (drain (started.queued chooser part)).1)
    {parts : List FountainPart} (ha : (a = create ∨ M a) ∨ Elsewhere H a)
    (hparts : TakesOnly chooser good a parts) :
    (parts.foldl (fun a part => (a.receive chooser part).1) a = create ∨
      M (parts.foldl (fun a part => (a.receive chooser part).1) a)) ∨
      Elsewhere H (parts.foldl (fun a part => (a.receive chooser part).1) a) := by
  induction parts generalizing a with
  | nil => exact ha
  | cons part parts ih =>
    suffices hnext : ((a.receive chooser part).1 = create ∨ M (a.receive chooser part).1) ∨
        Elsewhere H (a.receive chooser part).1 from ih hnext hparts.2
    rcases ha with hhere | helsewhere
    · cases hcomplete : a.complete with
      | true =>
        rw [receive_of_complete _ hcomplete]
        exact .inl hhere
      | false =>
        by_cases htaken : ∃ started, a.validate part = .ok (started, true)
        · obtain ⟨started, hvalidate⟩ := htaken
          have hgood := hparts.1 started hcomplete hvalidate
          have htook := header_of_validate (hhere.imp_right fun h => (hM a h).2) hvalidate
          have hheader : (drain (started.queued chooser part)).1.header = part.header :=
            (header_drain (started.queued chooser part)).trans htook
          rw [(receive_of_taken hcomplete hvalidate).1]
          by_cases hsame : part.header = H
          · exact .inl (.inr (hstep a part started hhere hcomplete hvalidate hsame hgood))
          · refine .inr ⟨⟨part.seqLen, congrArg Prod.fst hheader⟩, ?_⟩
            rwa [hheader]
        · rw [receive_of_not_taken fun started hvalidate => htaken ⟨started, hvalidate⟩]
          exact .inl hhere
    · exact .inr (elsewhere_receive helsewhere part)

end Header

/-- An index that the assembler holds, as a fragment or in a mixed part. -/
def HoldsIndex (a : FountainAssembler) (i : ℤ) : Prop :=
  i ∈ a.received ∨ ∃ item ∈ a.simple ++ a.mixed, i ∈ item.indexes

section Runs

variable {chooser : PartChooser} {parts : List FountainPart}

theorem reduceClosed_indexes (expected : List ℤ) :
    ReduceClosed fun item => ∀ i ∈ item.indexes, i ∈ expected := by
  intro p q hp hq
  rw [reduce]
  split_ifs
  · exact fun i hi => hp i (List.mem_filter.mp hi).1
  · exact hp

/-- The items that are held when a part is taken and queued. -/
theorem holding_queued {Q : FountainItem → Prop} {b started : FountainAssembler}
    {part : FountainPart} (h : b.Holding Q) (hvalidate : b.validate part = .ok (started, true))
    (hitem : Q ⟨chooser.chooseFragments part.seqNum part.seqLen part.checksum, part.fragment⟩) :
    (started.queued chooser part).Holding Q := by
  obtain ⟨hreceived, hqueue, -, hsimple, hmixed⟩ := validate_eq_taken hvalidate
  refine ⟨?_, ?_, fun other hother => ?_, ?_, ?_⟩
  · rw [queued, hsimple]
    exact h.simple
  · rw [queued, hmixed]
    exact h.mixed
  · rw [queued, hqueue] at hother
    rcases List.mem_append.mp hother with hother | hother
    · exact h.queue other hother
    · rwa [List.mem_singleton.mp hother]
  · rw [queued, hsimple, hreceived]
    exact h.received
  · rw [queued, hreceived]
    exact h.nodup

/-- **Indexes in range.** An assembler that takes only parts with numbers from one on holds only
indexes of the message. -/
theorem indexes_in_range (hparts : TakesOnly chooser (1 ≤ ·.seqNum) create parts) {i : ℤ} (h : (assemble chooser parts).HoldsIndex i) :
    ∃ n, (assemble chooser parts).expectedIndexes = some (indexesBelow n) ∧ 0 ≤ i ∧ i < n := by
  obtain ⟨a, ha⟩ : ∃ a, assemble chooser parts = a := ⟨_, rfl⟩
  rw [ha] at h ⊢
  have hrun : (a = create ∨ a.header = a.header ∧ a.Started ∧ a.Holding fun item =>
      ∀ i ∈ item.indexes, i ∈ a.expectedIndexes.getD []) ∨ Elsewhere a.header a := by
    have hkept := assemble_keeps chooser (H := a.header) (M := fun b =>
        b.header = a.header ∧ b.Started ∧ b.Holding fun item =>
          ∀ i ∈ item.indexes, i ∈ a.expectedIndexes.getD []) (fun b hb => ⟨hb.1, hb.2.1⟩)
      (fun b part started hb _ hvalidate hsame hseq => ?_) (.inl (.inl rfl)) hparts
    · rw [assemble] at ha
      rwa [ha] at hkept
    · have htook := header_of_validate (hb.imp_right fun hb => hb.2.1) hvalidate
      have hheader := (header_drain (started.queued chooser part)).trans htook
      have hexpected : a.expectedIndexes = some (indexesBelow part.seqLen) :=
        (congrArg Prod.fst hsame).symm
      refine ⟨hheader.trans hsame, ⟨part.seqLen, congrArg Prod.fst hheader⟩, ?_⟩
      rw [hexpected, Option.getD_some] at hb ⊢
      refine (holding_queued ?_ hvalidate fun i hi => mem_chooseFragments hseq hi).drain
        (reduceClosed_indexes _)
      rcases hb with rfl | hb
      · exact holding_create
      · exact hb.2.2
  rcases hrun with (rfl | ⟨-, ⟨n, hn⟩, hholding⟩) | ⟨-, hne⟩
  · rcases h with hreceived | ⟨item, hitem, -⟩
    · cases hreceived
    · cases hitem
  · refine ⟨n, hn, ?_⟩
    rw [hn, Option.getD_some] at hholding
    rw [← mem_indexesBelow]
    rcases h with hreceived | ⟨item, hitem, hi⟩
    · have hone : [i] ∈ a.simple.map (·.indexes) := by
        rw [hholding.received]
        exact List.mem_map_of_mem hreceived
      obtain ⟨item, hitem, hindexes⟩ := List.mem_map.mp hone
      exact hholding.simple item hitem i (by rw [hindexes]; exact List.mem_singleton.mpr rfl)
    · rcases List.mem_append.mp hitem with hitem | hitem
      · exact hholding.simple item hitem i hi
      · exact hholding.mixed item hitem i hi
  · exact absurd rfl hne

end Runs

section Blocked

variable {a : FountainAssembler} {item : FountainItem} {chooser : PartChooser}

/-- An index is received that is none of the message's, which is not whole. -/
def Blocked (a : FountainAssembler) : Prop :=
  a.complete = false ∧ a.Started ∧ ∃ i ∈ a.received, i ∉ a.expectedIndexes.getD []

theorem blocked_turn (h : Blocked a) {rest : List FountainItem} :
    Blocked (turn { a with queue := rest } item).1 := by
  obtain ⟨hrunning, hstarted, i, hi, hnot⟩ := h
  rw [turn]
  split
  · rename_i idx hindexes
    rw [processSimple]
    split_ifs
    · exact ⟨hrunning, hstarted, i, hi, hnot⟩
    dsimp only
    have hunequal : ¬arraysEqualSet (a.received ++ [idx]) (a.expectedIndexes.getD []) = true := by
      intro hequal
      simp only [arraysEqualSet, decide_eq_true_eq, List.all_eq_true] at hequal
      exact hnot (hequal.2 i (List.mem_append_left _ hi))
    rw [if_neg hunequal]
    exact ⟨hrunning, hstarted, i, List.mem_append_left _ hi, hnot⟩
  · rw [processMixed]
    split_ifs
    · exact ⟨hrunning, hstarted, i, hi, hnot⟩
    dsimp only
    split_ifs
    · exact ⟨hrunning, hstarted, i, hi, hnot⟩
    · exact ⟨hrunning, hstarted, i, hi, hnot⟩

theorem blocked_drain (h : Blocked a) : Blocked (drain a).1 :=
  (drain_keeps (P := Blocked) (fun _ _ _ hblocked _ _ => blocked_turn hblocked) h).1

/-- **No part undoes it.** -/
theorem blocked_receive (h : Blocked a) (part : FountainPart) :
    Blocked (a.receive chooser part).1 := by
  by_cases htaken : ∃ started, a.validate part = .ok (started, true)
  · obtain ⟨started, hvalidate⟩ := htaken
    rw [(receive_of_taken h.1 hvalidate).1]
    obtain ⟨hrunning, ⟨n, hn⟩, i, hi, hnot⟩ := h
    simp only [validate, hn, Except.ok.injEq, Prod.mk.injEq] at hvalidate
    obtain ⟨rfl, -⟩ := hvalidate
    exact blocked_drain ⟨hrunning, ⟨n, hn⟩, i, hi, hnot⟩
  · rw [receive_of_not_taken fun started hvalidate => htaken ⟨started, hvalidate⟩]
    exact h

theorem blocked_foldl (h : Blocked a) (parts : List FountainPart) :
    Blocked (parts.foldl (fun a part => (a.receive chooser part).1) a) := by
  induction parts generalizing a with
  | nil => exact h
  | cons part parts ih => exact ih (blocked_receive h part)

/-- A part of number zero that is taken first has the index -1, which blocks the message. -/
theorem blocked_of_zero {part : FountainPart} {started : FountainAssembler}
    (hzero : part.seqNum = 0) (hvalidate : create.validate part = .ok (started, true)) :
    Blocked (create.receive chooser part).1 := by
  have hchosen : chooser.chooseFragments part.seqNum part.seqLen part.checksum = [-1] := by
    rw [hzero, PartChooser.chooseFragments, if_pos (Nat.zero_le _)]
    rfl
  rw [(receive_of_taken rfl hvalidate).1]
  simp only [validate, create, bind_eq_ok, refuseIf_eq_ok, pure_eq_ok, Prod.mk.injEq,
    and_true] at hvalidate
  obtain ⟨_, -, _, -, _, -, _, -, rfl⟩ := hvalidate
  have hnot : (-1 : ℤ) ∉ indexesBelow part.seqLen := by
    rw [mem_indexesBelow]
    omega
  have hunequal : ¬arraysEqualSet [-1] (indexesBelow part.seqLen) = true := by
    intro hequal
    simp only [arraysEqualSet, decide_eq_true_eq, List.all_eq_true] at hequal
    exact hnot (hequal.2 (-1) (List.mem_singleton.mpr rfl))
  rw [queued, hchosen, drain_of_cons rfl rfl]
  simp only [turn, processSimple, List.not_mem_nil, if_false, List.nil_append, Option.getD_some,
    hunequal, Bool.false_eq_true, reduceMixedBy, List.map_nil, List.filter_nil]
  rw [drain_of_nil rfl]
  exact ⟨rfl, ⟨_, rfl⟩, -1, List.mem_singleton.mpr rfl, hnot⟩

end Blocked

end FountainAssembler

namespace UrTransmission

open FountainAssembler

variable {T : UrTransmission} {chooser : PartChooser} {parts : List FountainPart}

theorem withinCaps_of_validate {started : FountainAssembler} {part : FountainPart}
    (hheader : T.SharesHeader part) (h : FountainAssembler.create.validate part = .ok (started, true)) :
    T.WithinCaps := by
  obtain ⟨hseqLen, hlength, -, hfragment⟩ := hheader
  simp only [validate, FountainAssembler.create, bind_eq_ok, refuseIf_eq_ok, pure_eq_ok,
    hseqLen, hlength, hfragment] at h
  obtain ⟨_, hcap, _, hcap', _, hcap'', _, hconsistent, -⟩ := h
  refine ⟨?_, by omega, by omega, by omega⟩
  rintro hnone
  rw [hnone, List.length_nil] at hconsistent
  omega

theorem sharesHeader_iff {part : FountainPart} : T.SharesHeader part ↔ part.header = T.header := by
  simp only [SharesHeader, FountainPart.header, UrTransmission.header, Prod.mk.injEq,
    Option.some.injEq, UrTransmission.indexes]
  constructor
  · rintro ⟨hseqLen, hlength, hchecksum, hfragment⟩
    exact ⟨by rw [hseqLen], hlength, hchecksum, hfragment⟩
  · rintro ⟨hindexes, hlength, hchecksum, hfragment⟩
    exact ⟨indexesBelow_inj hindexes, hlength, hchecksum, hfragment⟩

/-- What a run with the header of a transmission keeps, once it has the header. -/
def InProgress (T : UrTransmission) (a : FountainAssembler) : Prop :=
  T.WithinCaps ∧ Assembling T a ∧ (a.complete = true ∨ a.queue = [])

/-- The number of a part and its fragment are those of a part of the transmission. -/
def Agrees (T : UrTransmission) (chooser : PartChooser) (part : FountainPart) : Prop :=
  1 ≤ part.seqNum ∧
    part.fragment = T.mix (chooser.chooseFragments part.seqNum T.seqLen T.checksum)

theorem Agrees.eq_part {part : FountainPart} (h : T.Agrees chooser part)
    (hheader : part.header = T.header) : part = T.part chooser part.seqNum := by
  obtain ⟨hseqLen, hlength, hchecksum, -⟩ := sharesHeader_iff.mpr hheader
  obtain ⟨-, hfragment⟩ := h
  obtain ⟨seqNum, seqLen, messageLength, checksum, fragment⟩ := part
  obtain rfl : seqLen = T.seqLen := hseqLen
  obtain rfl : messageLength = T.message.length := hlength
  obtain rfl : checksum = T.checksum := hchecksum
  obtain rfl : fragment = T.mix (chooser.chooseFragments seqNum T.seqLen T.checksum) := hfragment
  rfl

/-- **Runs of a transmission**: what the parts with its header make of the assembler, where they
agree with it. -/
theorem assemble_transmission
    (hparts : TakesOnly chooser (T.Agrees chooser) FountainAssembler.create parts) :
    (assemble chooser parts = FountainAssembler.create ∨ InProgress T (assemble chooser parts)) ∨
      Elsewhere T.header (assemble chooser parts) := by
  refine assemble_keeps chooser (H := T.header) (M := InProgress T) (fun a ha => ?_)
    (fun a part started ha _ hvalidate hheader hgood => ?_) (.inl (.inl rfl)) hparts
  · have hheader := ha.2.1.header
    exact ⟨hheader, T.seqLen, congrArg Prod.fst hheader⟩
  · have hshares := sharesHeader_iff.mpr hheader
    have hcaps : T.WithinCaps := by
      rcases ha with rfl | ha
      · exact withinCaps_of_validate hshares hvalidate
      · exact ha.1
    have hunderway : Underway T a := ha.imp_right fun ha => ha.2
    have hstarted := assembling_of_validate hunderway hshares hvalidate
    have hqueued := hstarted.queued chooser hgood.1
    rw [← hgood.eq_part hheader] at hqueued
    obtain ⟨hafter, -, hend⟩ := hqueued.drain
    exact ⟨hcaps, hafter, hend⟩

theorem elsewhere_foldl {a : FountainAssembler} (h : Elsewhere T.header a)
    (parts : List FountainPart) :
    Elsewhere T.header (parts.foldl (fun a part => (a.receive chooser part).1) a) := by
  induction parts generalizing a with
  | nil => exact h
  | cons part parts ih => exact ih (elsewhere_receive h part)

/-- **The message is whole.** An assembler that takes only parts that agree with a transmission, and
ends with its header, has the message when all pure parts were among them. -/
theorem result_of_parts (hheader : (assemble chooser parts).header = T.header)
    (hparts : TakesOnly chooser (T.Agrees chooser) FountainAssembler.create parts)
    (hpure : ∀ seqNum : ℕ+, (seqNum : ℕ) ≤ T.seqLen → T.part chooser seqNum ∈ parts) :
    (assemble chooser parts).result = some T.message := by
  rcases assemble_transmission hparts with (hfresh | ⟨hcaps, hassembling, hend⟩) | helsewhere
  · rw [hfresh] at hheader
    cases congrArg Prod.fst hheader
  · refine hassembling.result_of_coming hend fun idx hidx => ?_
    obtain ⟨hlow, hhigh⟩ := mem_indexes.mp hidx
    obtain ⟨seqNum, hseqNum⟩ : ∃ seqNum : ℕ+, (seqNum : ℕ) = idx.toNat + 1 :=
      ⟨⟨idx.toNat + 1, Nat.succ_pos _⟩, rfl⟩
    obtain ⟨before, after, rfl⟩ := List.append_of_mem (hpure seqNum (by omega))
    rw [assemble, List.foldl_append, List.foldl_cons] at hheader ⊢
    rcases assemble_transmission hparts.of_append with hhere | helsewhere
    · exact coming_foldl (coming_pure hcaps (hhere.imp_right fun h => h.2) hseqNum hidx)
    · exact absurd hheader (elsewhere_foldl (elsewhere_receive helsewhere _) after).2
  · exact absurd hheader helsewhere.2

end UrTransmission

/-! ### The decoder -/

namespace UrPsbtDecoder

variable (chooser : PartChooser)

/-- The assembler of the decoder, fresh where there is none yet. -/
def assembling (d : UrPsbtDecoder) : FountainAssembler := d.assembler.getD .create

/-- The part that a frame hands to the assembler, where it gets there. -/
def handed (d : UrPsbtDecoder) (frame : String) : Option FountainPart :=
  if d.complete then none
  else
    match parseUrFrame frame with
    | .error _ => none
    | .ok parsed =>
      if d.expectType ≠ [] ∧ parsed.type ≠ d.expectType then none
      else if some parsed.type ≠ some (d.type.getD parsed.type) then none
      else if parsed.isSinglePart then none
      else (decodePartCbor parsed.cbor).toOption

/-- The parts that some frames hand to the assembler, in turn. -/
def handedParts (d : UrPsbtDecoder) : List String → List FountainPart
  | [] => []
  | frame :: frames => (d.handed frame).toList ++ handedParts (d.receive chooser frame).1 frames

variable {chooser}

theorem assembling_receivePart (d : UrPsbtDecoder) (part : FountainPart) :
    (d.receivePart chooser part).1.assembling = (d.assembling.receive chooser part).1 := by
  rw [receivePart]
  rcases hreceive : (d.assembler.getD .create).receive chooser part with ⟨next, accepted⟩
  have hnext : next = (d.assembling.receive chooser part).1 := by
    rw [assembling, hreceive]
  cases accepted with
  | error e => exact hnext
  | ok accepted =>
    cases hresult : next.result with
    | none =>
      simp only [hresult]
      exact hnext
    | some result =>
      simp only [hresult]
      cases cborUnwrapBytes result <;> exact hnext

/-- One frame: the assembler takes the part that is handed to it, or stays as it is. -/
theorem assembling_receive (d : UrPsbtDecoder) (frame : String) :
    (d.receive chooser frame).1.assembling =
      (d.handed frame).toList.foldl (fun a part => (a.receive chooser part).1) d.assembling := by
  rw [receive, handed]
  split_ifs
  · rfl
  cases parseUrFrame frame with
  | error e => rfl
  | ok parsed =>
    dsimp only
    split_ifs
    · rfl
    · rfl
    · cases cborUnwrapBytes parsed.cbor <;> rfl
    · cases decodePartCbor parsed.cbor with
      | error e => rfl
      | ok part => exact assembling_receivePart _ part

/-- **The run of the decoder** is the run of the assembler over the parts that are handed to it. -/
theorem assembling_scan (d : UrPsbtDecoder) (frames : List String) :
    (d.scan chooser frames).assembling =
      (d.handedParts chooser frames).foldl (fun a part => (a.receive chooser part).1)
        d.assembling := by
  induction frames generalizing d with
  | nil => rfl
  | cons frame frames ih =>
    rw [handedParts, List.foldl_append, ← assembling_receive, ← ih]
    rfl

end UrPsbtDecoder

open FountainAssembler in
/-- **Runs of the UR decoder.** Whatever frames are scanned: where each part that the assembler takes
has a number from one on, each index that it holds is one of the message; and where each part that it
takes agrees with a transmission, whose header it has in the end, it has the message when all pure
parts were handed to it. -/
theorem fountain_frames_kept (chooser : PartChooser) (expectType : List Char) (frames : List String) :
    (TakesOnly chooser (1 ≤ ·.seqNum) .create
        ((UrPsbtDecoder.create expectType).handedParts chooser frames) →
      ∀ i, ((UrPsbtDecoder.create expectType).scan chooser frames).assembling.HoldsIndex i →
        ∃ n, ((UrPsbtDecoder.create expectType).scan chooser frames).assembling.expectedIndexes =
          some (indexesBelow n) ∧ 0 ≤ i ∧ i < n) ∧
    (∀ T : UrTransmission,
      ((UrPsbtDecoder.create expectType).scan chooser frames).assembling.header = T.header →
      TakesOnly chooser (T.Agrees chooser) .create
        ((UrPsbtDecoder.create expectType).handedParts chooser frames) →
      (∀ seqNum : ℕ+, (seqNum : ℕ) ≤ T.seqLen →
        T.part chooser seqNum ∈ (UrPsbtDecoder.create expectType).handedParts chooser frames) →
      ((UrPsbtDecoder.create expectType).scan chooser frames).assembling.result =
        some T.message) := by
  have hrun : ((UrPsbtDecoder.create expectType).scan chooser frames).assembling =
      assemble chooser ((UrPsbtDecoder.create expectType).handedParts chooser frames) :=
    UrPsbtDecoder.assembling_scan _ frames
  rw [hrun]
  exact ⟨fun hparts i hi => indexes_in_range hparts hi, fun T hheader hparts hpure =>
    UrTransmission.result_of_parts hheader hparts hpure⟩

/-- A frame with the sequence segment `1-2` around a part of number zero. -/
def zeroNumberedFrame : String := "ur:crypto-psbt/1-2/lpaeaoaacyrpfnzosnfwadaoetammego"

theorem parse_zeroNumberedFrame : parseUrFrame zeroNumberedFrame = .ok ⟨urPsbtType, false, 1, 2,
    [0x85, 0, 2, 4, 0x1a, 0xb6, 0x3c, 0xfb, 0xcd, 0x42, 1, 2]⟩ := by
  decide +kernel

theorem handed_zeroNumberedFrame :
    (UrPsbtDecoder.create urPsbtType).handed zeroNumberedFrame =
      some ⟨0, 2, 4, 0xb63cfbcd, [1, 2]⟩ := by
  have hpart : decodePartCbor [0x85, 0, 2, 4, 0x1a, 0xb6, 0x3c, 0xfb, 0xcd, 0x42, 1, 2] =
      .ok ⟨0, 2, 4, 0xb63cfbcd, [1, 2]⟩ := by decide +kernel
  rw [UrPsbtDecoder.handed, parse_zeroNumberedFrame]
  simp [UrPsbtDecoder.create, UrPsbtDecoder.complete, hpart, Except.toOption]

/-- A part of number zero, in a frame whose sequence segment is in order, leaves the index -1 with
the assembler; whatever frames are scanned after it, the message is never whole. -/
theorem zero_numbered_part_blocks :
    (¬∀ (chooser : PartChooser) (expectType : List Char) (frames : List String) (i : ℤ),
      ((UrPsbtDecoder.create expectType).scan chooser frames).assembling.HoldsIndex i →
        ∃ n, ((UrPsbtDecoder.create expectType).scan chooser frames).assembling.expectedIndexes =
          some (indexesBelow n) ∧ 0 ≤ i ∧ i < n) ∧
    ∀ (chooser : PartChooser) (frames : List String),
      ((UrPsbtDecoder.create urPsbtType).scan chooser (zeroNumberedFrame :: frames)).assembling.result =
        none := by
  have hblocked : ∀ (chooser : PartChooser) (frames : List String),
      ((UrPsbtDecoder.create urPsbtType).scan chooser
        (zeroNumberedFrame :: frames)).assembling.Blocked := by
    intro chooser frames
    have hvalidate : ∃ started, FountainAssembler.create.validate ⟨0, 2, 4, 0xb63cfbcd, [1, 2]⟩ =
        .ok (started, true) := by
      simp only [FountainAssembler.validate, FountainAssembler.create, bind_eq_ok, refuseIf_eq_ok,
        pure_eq_ok, Prod.mk.injEq, and_true]
      exact ⟨_, (), by decide, (), by decide, (), by decide, (), by decide, rfl⟩
    obtain ⟨started, hvalidate⟩ := hvalidate
    rw [UrPsbtDecoder.assembling_scan, UrPsbtDecoder.handedParts, handed_zeroNumberedFrame,
      List.foldl_append]
    exact FountainAssembler.blocked_foldl (FountainAssembler.blocked_of_zero rfl hvalidate) _
  refine ⟨fun h => ?_, fun chooser frames => ?_⟩
  · let chooser : PartChooser := ⟨fun _ _ _ => [], fun _ _ _ => List.nodup_nil,
      fun _ _ _ i hi => by cases hi⟩
    obtain ⟨-, -, i, hi, hnot⟩ := hblocked chooser []
    obtain ⟨n, hn, hrange⟩ := h chooser urPsbtType [zeroNumberedFrame] i (.inl hi)
    rw [hn, Option.getD_some, mem_indexesBelow] at hnot
    exact hnot hrange
  · have hrunning := (hblocked chooser frames).1
    simpa [FountainAssembler.complete] using hrunning

end XchainWallet
