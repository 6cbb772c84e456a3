import IteSdk.Xd.TableChosen

/-!
# What a generated table recovers

`GenerateTranslationTable` resolves the copies of a zone if the last page of every
incomplete copy names some logical block and if a complete copy that comes second does
so in the first zone, for another logical block than the one that is asked for.
-/

namespace IteSdk.Xd

open Lib Function

variable {card : XdCard} {cisBlock zone logicalBlock : Nat}

/-- The copies come in an order, and have last pages, that the code resolves. -/
def Resolvable (card : XdCard) (cisBlock zone logicalBlock : Nat) : Prop :=
  ∀ complete incomplete logicalAddr,
    Copies card (zoneBlocks cisBlock zone) complete incomplete logicalAddr →
      card.lastAddr incomplete ≠ none ∧
        (incomplete < complete → zone = 0 ∧ logicalAddr ≠ logicalBlock)

theorem Copies.apart {blocks : List Nat} {complete incomplete logicalAddr : Nat}
    (copies : Copies card blocks complete incomplete logicalAddr) :
    complete ≠ incomplete := by
  rintro rfl
  exact copies.isIncomplete.2 copies.isComplete.2

theorem Resolvable.buildable (resolvable : Resolvable card cisBlock zone logicalBlock) :
    Buildable card cisBlock zone logicalBlock := by
  intro complete completeIn incomplete incompleteIn logicalAddr isComplete isIncomplete least
  have copies : Copies card (zoneBlocks cisBlock zone) complete incomplete logicalAddr :=
    ⟨completeIn, incompleteIn, isComplete, isIncomplete⟩
  obtain ⟨named, order⟩ := resolvable complete incomplete logicalAddr copies
  have before := least complete completeIn isComplete.1
  obtain ⟨zero, other⟩ := order (Nat.lt_of_le_of_ne before copies.apart.symm)
  exact ⟨zero, named, other⟩

theorem superseded_iff (interrupted : Interrupted card (zoneBlocks cisBlock zone))
    (resolvable : Resolvable card cisBlock zone logicalBlock) (block : Nat) :
    (block ∈ zoneBlocks cisBlock zone ∧ Superseded card (zoneBlocks cisBlock zone) block) ↔
      ∃ complete logicalAddr,
        Copies card (zoneBlocks cisBlock zone) complete block logicalAddr := by
  constructor
  · rintro ⟨inside, -, logicalAddr, claims, unchosen⟩
    rcases choice : chosen card (zoneBlocks cisBlock zone) logicalAddr with _ | complete
    · exact absurd claims (chosen_none.mp choice block inside)
    · have other : complete ≠ block := fun same => unchosen (same ▸ choice)
      obtain ⟨completeIn, completeClaims, isComplete | none_⟩ := chosen_some choice
      · have isIncomplete : card.Incomplete block logicalAddr :=
          (complete_or_incomplete claims).resolve_left fun blockComplete =>
            other (interrupted.oneComplete complete completeIn block inside logicalAddr
              isComplete blockComplete)
        exact ⟨complete, logicalAddr, completeIn, inside, isComplete, isIncomplete⟩
      · have first := (complete_or_incomplete completeClaims).resolve_left
          (none_ complete completeIn)
        have second := (complete_or_incomplete claims).resolve_left (none_ block inside)
        exact
          absurd
            (interrupted.oneIncomplete complete completeIn block inside logicalAddr first second)
            other
  · rintro ⟨complete, logicalAddr, copies⟩
    refine ⟨copies.incompleteInside, (resolvable complete block logicalAddr copies).1,
      logicalAddr, copies.isIncomplete.1, ?_⟩
    rw [chosen_complete copies.completeInside copies.isComplete fun other inside complete_ =>
      interrupted.oneComplete other inside complete copies.completeInside logicalAddr
        complete_ copies.isComplete]
    exact fun same => copies.apart (Option.some.inj same)

/-- What is asked of `GenerateTranslationTable`.  Only incomplete copies are erased,
which are blocks of the zone and no complete copies. -/
structure Recovered (layer : XdLayer) (zone logicalBlock : Nat)
    (result : Bool × Nat × XdLayer) : Prop where
  returned : result.1 = true
  mapped : ∀ complete incomplete logicalAddr,
    Copies layer.card (zoneBlocks layer.cisBlock zone) complete incomplete logicalAddr →
      result.2.2.translationTable logicalAddr = inZone complete
  erased : ∀ block,
    block ∈ result.2.2.card.erases ↔
      ∃ complete logicalAddr,
        Copies layer.card (zoneBlocks layer.cisBlock zone) complete block logicalAddr
  stored : ∃ heap, result.2.2.eraseBlockHeap = some heap ∧
    ∀ element, element ∈ heap.elements ↔
      ∃ block ∈ zoneBlocks layer.cisBlock zone, element = inZone block ∧
        (layer.card.readSpare block 0 = .erased ∨
          layer.card.worn block = none ∧
            ∃ complete logicalAddr,
              Copies layer.card (zoneBlocks layer.cisBlock zone) complete block logicalAddr)
  phyBlock : result.2.1 = result.2.2.translationTable logicalBlock

variable {inserted : Nat → Bool} {layer : XdLayer}

theorem recovered_of_resolvable (stays : ∀ block, inserted block = true)
    (garbage : Nat → Int) (fresh : layer.card.erases = [])
    (interrupted : Interrupted layer.card (zoneBlocks layer.cisBlock zone))
    (resolvable : Resolvable layer.card layer.cisBlock zone logicalBlock) :
    Recovered layer zone logicalBlock
      (generateTranslationTable inserted (some garbage) layer zone logicalBlock) := by
  have built : Built layer.card logicalBlock (zoneBlocks layer.cisBlock zone)
      (zoneScan layer garbage zone logicalBlock) :=
    ((built_empty garbage fresh).foldl (scanned_empty garbage fresh) rfl
      interrupted.oneComplete resolvable.buildable).1
  have erased : ∀ block,
      block ∈ (zoneScan layer garbage zone logicalBlock).card.erases ↔
        ∃ complete logicalAddr,
          Copies layer.card (zoneBlocks layer.cisBlock zone) complete block logicalAddr :=
    fun block => (built.erased block).trans (superseded_iff interrupted resolvable block)
  rw [generateTranslationTable_eq stays]
  refine
    { returned := rfl
      mapped := fun complete incomplete logicalAddr copies => ?_
      erased := erased
      stored := ⟨_, rfl, fun element => ?_⟩
      phyBlock := built.phyBlock }
  · have choice := chosen_complete copies.completeInside copies.isComplete
      fun other inside complete_ =>
        interrupted.oneComplete other inside complete copies.completeInside logicalAddr
          complete_ copies.isComplete
    exact (built.table logicalAddr).trans (by rw [choice, entry_some])
  · rw [built.stored.mem]
    refine exists_congr fun block => ?_
    rw [erased, and_assoc, and_comm (b := (inZone block : Int) = element), eq_comm]

theorem resolvable_of_recovered (stays : ∀ block, inserted block = true)
    {garbage : Nat → Int} (fresh : layer.card.erases = [])
    (interrupted : Interrupted layer.card (zoneBlocks layer.cisBlock zone))
    (recovered : Recovered layer zone logicalBlock
      (generateTranslationTable inserted (some garbage) layer zone logicalBlock)) :
    Resolvable layer.card layer.cisBlock zone logicalBlock := by
  rw [generateTranslationTable_eq stays] at recovered
  have scanned : Scanned layer.card zone logicalBlock (zoneBlocks layer.cisBlock zone)
      (zoneScan layer garbage zone logicalBlock) := by
    refine (scanned_empty garbage fresh).foldl rfl fun block erased => ?_
    obtain ⟨complete, logicalAddr, copies⟩ := (recovered.erased block).mp erased
    exact copies.incompleteInside
  intro complete incomplete logicalAddr copies
  have erased : incomplete ∈ (zoneScan layer garbage zone logicalBlock).card.erases :=
    (recovered.erased incomplete).mpr ⟨complete, logicalAddr, copies⟩
  -- only these two blocks claim the logical block, and the complete one comes later
  have first : incomplete < complete → ∀ other ∈ zoneBlocks layer.cisBlock zone,
      layer.card.claimed other = some logicalAddr → incomplete ≤ other := by
    intro order other inside claims
    rcases complete_or_incomplete claims with isComplete | isIncomplete
    · rw [interrupted.oneComplete other inside complete copies.completeInside logicalAddr
        isComplete copies.isComplete]
      exact Nat.le_of_lt order
    · rw [interrupted.oneIncomplete other inside incomplete copies.incompleteInside
        logicalAddr isIncomplete copies.isIncomplete]
  refine ⟨scanned.named incomplete erased, fun order => ⟨?_, ?_⟩⟩
  · by_contra later
    obtain ⟨l, claims, other, inside, less, shared⟩ := scanned.second later incomplete erased
    rw [copies.isIncomplete.1] at claims
    rw [← Option.some.inj claims] at shared
    exact Nat.not_lt_of_le (first order other inside shared) less
  · rintro rfl
    have found : (zoneScan layer garbage zone logicalAddr).bFindTargetBlock = true := by
      by_contra missed
      exact
        scanned.missed (Bool.eq_false_iff.mpr missed) incomplete copies.incompleteInside
          copies.isIncomplete.1
    obtain ⟨block, inside, claims, phyBlock, least⟩ := scanned.found found
    have same : block = incomplete :=
      Nat.le_antisymm (least incomplete copies.incompleteInside copies.isIncomplete.1)
        (first order block inside claims)
    have mapped := recovered.mapped complete incomplete logicalAddr copies
    rw [← recovered.phyBlock] at mapped
    have equal : inZone incomplete = inZone complete := by
      rw [← same, ← phyBlock]
      exact mapped
    exact Nat.ne_of_lt order (inZone_injOn copies.incompleteInside copies.completeInside equal)

/-- The copies of a zone are recovered exactly if they can be resolved. -/
theorem generateTranslationTable_recovered_iff (stays : ∀ block, inserted block = true)
    (garbage : Nat → Int) (fresh : layer.card.erases = [])
    (interrupted : Interrupted layer.card (zoneBlocks layer.cisBlock zone)) :
    Recovered layer zone logicalBlock
        (generateTranslationTable inserted (some garbage) layer zone logicalBlock) ↔
      Resolvable layer.card layer.cisBlock zone logicalBlock :=
  ⟨resolvable_of_recovered stays fresh interrupted,
    recovered_of_resolvable stays garbage fresh interrupted⟩

/-! ## A card with two copies -/

def XdPage.ofLogical (logicalAddr : Nat) : XdPage :=
  ⟨fun _ => 0x00#8, updateSpare (fun _ => 0xFF#8) logicalAddr⟩

/-- The logical block 9 in two blocks of an erased card; the last page of one of them
still names another logical block. -/
def twoCopies (complete incomplete : Nat) : XdCard where
  page block page :=
    if block = complete then some (.ofLogical 9)
    else if block = incomplete then some (.ofLogical (if page = 31 then 8 else 9))
    else some .erased
  worn _ := none
  erases := []

def twoCopiesLayer (complete incomplete : Nat) : XdLayer where
  card := twoCopies complete incomplete
  cisBlock := 0
  translationTable _ := XD_INVALID_BLOCK_NUMBER
  eraseBlockHeap := none
  lastUseZone := 1

section TwoCopies

variable {complete incomplete block logicalAddr : Nat}

theorem page_complete (page : Nat) :
    (twoCopies complete incomplete).page complete page = some (.ofLogical 9) :=
  if_pos rfl

theorem page_incomplete (apart : incomplete ≠ complete) (page : Nat) :
    (twoCopies complete incomplete).page incomplete page =
      some (.ofLogical (if page = 31 then 8 else 9)) :=
  (if_neg apart).trans (if_pos rfl)

theorem claimed_twoCopies (apart : incomplete ≠ complete) :
    (twoCopies complete incomplete).claimed block =
      if block = complete ∨ block = incomplete then some 9 else none := by
  rw [XdCard.claimed, XdCard.readSpare]
  by_cases first : block = complete
  · rw [if_pos (Or.inl first), first, page_complete]
    rfl
  · by_cases second : block = incomplete
    · rw [if_pos (Or.inr second), second, page_incomplete apart]
      rfl
    · have page : (twoCopies complete incomplete).page block 0 = some .erased :=
        (if_neg first).trans (if_neg second)
      rw [if_neg (not_or.mpr ⟨first, second⟩), page]
      rfl

theorem lastAddr_complete : (twoCopies complete incomplete).lastAddr complete = some 9 := by
  rw [XdCard.lastAddr, XdCard.pageAddr, XdCard.readSpare, page_complete]
  rfl

section

variable (apart : incomplete ≠ complete)

include apart

theorem lastAddr_incomplete : (twoCopies complete incomplete).lastAddr incomplete = some 8 := by
  rw [XdCard.lastAddr, XdCard.pageAddr, XdCard.readSpare, page_incomplete apart]
  rfl

theorem twoCopies_claims
    (claims : (twoCopies complete incomplete).claimed block = some logicalAddr) :
    logicalAddr = 9 ∧ (block = complete ∨ block = incomplete) := by
  rw [claimed_twoCopies apart] at claims
  split at claims
  · next inside => exact ⟨(Option.some.inj claims).symm, inside⟩
  · cases claims

theorem twoCopies_complete
    (isComplete : (twoCopies complete incomplete).Complete block logicalAddr) :
    block = complete := by
  obtain ⟨rfl, same | same⟩ := twoCopies_claims apart isComplete.1
  · exact same
  · have last := isComplete.2
    rw [same, lastAddr_incomplete apart] at last
    cases last

theorem twoCopies_incomplete
    (isIncomplete : (twoCopies complete incomplete).Incomplete block logicalAddr) :
    block = incomplete := by
  obtain ⟨rfl, same | same⟩ := twoCopies_claims apart isIncomplete.1
  · have last := isIncomplete.2
    rw [same, lastAddr_complete] at last
    exact absurd rfl last
  · exact same

theorem interrupted_twoCopies (blocks : List Nat) :
    Interrupted (twoCopies complete incomplete) blocks where
  oneComplete _ _ _ _ _ here there :=
    (twoCopies_complete apart here).trans (twoCopies_complete apart there).symm
  oneIncomplete _ _ _ _ _ here there :=
    (twoCopies_incomplete apart here).trans (twoCopies_incomplete apart there).symm

theorem copies_twoCopies {blocks : List Nat} (completeInside : complete ∈ blocks)
    (incompleteInside : incomplete ∈ blocks) :
    Copies (twoCopies complete incomplete) blocks complete incomplete 9 := by
  refine ⟨completeInside, incompleteInside, ⟨?_, lastAddr_complete⟩, ?_, ?_⟩
  · rw [claimed_twoCopies apart, if_pos (Or.inl rfl)]
  · rw [claimed_twoCopies apart, if_pos (Or.inr rfl)]
  · rw [lastAddr_incomplete apart]
    decide

end

theorem resolvable_twoCopies (order : complete < incomplete) (cisBlock zone logicalBlock : Nat) :
    Resolvable (twoCopies complete incomplete) cisBlock zone logicalBlock := by
  intro first second l copies
  have apart := Nat.ne_of_gt order
  rw [twoCopies_complete apart copies.isComplete,
    twoCopies_incomplete apart copies.isIncomplete, lastAddr_incomplete apart]
  exact ⟨Option.some_ne_none _, fun other => absurd other (Nat.lt_asymm order)⟩

end TwoCopies

theorem generateTranslationTable_recovered_iff_twoCopies :
    Recovered (twoCopiesLayer 1029 1030) 1 3
      (generateTranslationTable (fun _ => true) (some fun _ => 0) (twoCopiesLayer 1029 1030) 1 3) :=
  (generateTranslationTable_recovered_iff (fun _ => rfl) (fun _ => 0) rfl
    (interrupted_twoCopies (by decide) _)).mpr
    (resolvable_twoCopies (by decide) 0 1 3)

/-- The incomplete copy comes first, in the second zone. -/
theorem generateTranslationTable_keeps_incomplete :
    Interrupted (twoCopies 1030 1029) (zoneBlocks 0 1) ∧
      Copies (twoCopies 1030 1029) (zoneBlocks 0 1) 1030 1029 9 ∧
        ¬ Recovered (twoCopiesLayer 1030 1029) 1 3
          (generateTranslationTable (fun _ => true) (some fun _ => 0)
            (twoCopiesLayer 1030 1029) 1 3) := by
  have interrupted : Interrupted (twoCopies 1030 1029) (zoneBlocks 0 1) :=
    interrupted_twoCopies (by decide) _
  have copies : Copies (twoCopies 1030 1029) (zoneBlocks 0 1) 1030 1029 9 :=
    copies_twoCopies (by decide) (mem_zoneBlocks.mpr (by decide)) (mem_zoneBlocks.mpr (by decide))
  refine ⟨interrupted, copies, fun recovered => ?_⟩
  have resolvable := resolvable_of_recovered (fun _ => rfl) rfl interrupted recovered
  exact absurd ((resolvable 1030 1029 9 copies).2 (by decide)).1 (by decide)

end IteSdk.Xd
