import IteSdk.Xd.TranslationTable

/-!
# Recovery after an interrupted write

A logical block may be claimed by two blocks of a zone, the complete copy and one whose
first and last pages disagree.  The scan of the zone is followed block by block.
-/

namespace IteSdk.Xd

open Lib Function

namespace XdCard

/-- The first and the last page name the same logical block. -/
def Complete (card : XdCard) (block logicalAddr : Nat) : Prop :=
  card.claimed block = some logicalAddr ∧ card.lastAddr block = some logicalAddr

/-- The block was interrupted before its last page named the logical block too. -/
def Incomplete (card : XdCard) (block logicalAddr : Nat) : Prop :=
  card.claimed block = some logicalAddr ∧ card.lastAddr block ≠ some logicalAddr

end XdCard

structure Copies (card : XdCard) (blocks : List Nat)
    (complete incomplete logicalAddr : Nat) : Prop where
  completeInside : complete ∈ blocks
  incompleteInside : incomplete ∈ blocks
  isComplete : card.Complete complete logicalAddr
  isIncomplete : card.Incomplete incomplete logicalAddr

/-- No logical block has two complete or two incomplete copies. -/
structure Interrupted (card : XdCard) (blocks : List Nat) : Prop where
  oneComplete : ∀ first ∈ blocks, ∀ second ∈ blocks, ∀ logicalAddr,
    card.Complete first logicalAddr → card.Complete second logicalAddr → first = second
  oneIncomplete : ∀ first ∈ blocks, ∀ second ∈ blocks, ∀ logicalAddr,
    card.Incomplete first logicalAddr → card.Incomplete second logicalAddr → first = second

variable {card : XdCard} {done blocks : List Nat} {i : Nat}

theorem complete_or_incomplete {block logicalAddr : Nat}
    (claims : card.claimed block = some logicalAddr) :
    card.Complete block logicalAddr ∨ card.Incomplete block logicalAddr := by
  by_cases last : card.lastAddr block = some logicalAddr
  · exact Or.inl ⟨claims, last⟩
  · exact Or.inr ⟨claims, last⟩

/-! ## One block -/

namespace XdScan

variable {scan : XdScan} {logicalBlock logicalAddr : Nat}

@[simp] theorem card_enter (scan : XdScan) (logicalBlock i logicalAddr : Nat) :
    (scan.enter logicalBlock i logicalAddr).card = scan.card := by
  rw [enter]
  split <;> rfl

@[simp] theorem eraseBlockHeap_enter (scan : XdScan)
  (logicalBlock i logicalAddr : Nat) :
    (scan.enter logicalBlock i logicalAddr).eraseBlockHeap = scan.eraseBlockHeap := by
  rw [enter]
  split <;> rfl

@[simp] theorem translationTable_enter (scan : XdScan)
  (logicalBlock i logicalAddr : Nat) :
    (scan.enter logicalBlock i logicalAddr).translationTable =
      update scan.translationTable logicalAddr (inZone i) := by
  rw [enter]
  split <;> rfl

@[simp] theorem card_eraseBlock (scan : XdScan) (block : Nat) :
    (scan.eraseBlock block).card = (scan.card.erase block).2 := by
  rw [eraseBlock]
  split <;> rfl

@[simp] theorem translationTable_eraseBlock (scan : XdScan) (block : Nat) :
    (scan.eraseBlock block).translationTable = scan.translationTable := by
  rw [eraseBlock]
  split <;> rfl

@[simp] theorem phyBlock_eraseBlock (scan : XdScan) (block : Nat) :
    (scan.eraseBlock block).phyBlock = scan.phyBlock := by
  rw [eraseBlock]
  split <;> rfl

@[simp] theorem bFindTargetBlock_eraseBlock (scan : XdScan) (block : Nat) :
    (scan.eraseBlock block).bFindTargetBlock = scan.bFindTargetBlock := by
  rw [eraseBlock]
  split <;> rfl

theorem block_erased (erased : scan.card.readSpare i 0 = .erased) :
    scan.block logicalBlock i = scan.store i := by
  rw [block, erased]

theorem block_unclaimed (kept : scan.card.readSpare i 0 ≠ .erased)
    (unclaimed : scan.card.claimed i = none) : scan.block logicalBlock i = scan := by
  rw [XdCard.claimed] at unclaimed
  rw [block]
  split at unclaimed
  · next spare read =>
    rw [read]
    split at unclaimed
    · next normal => simp only [normal, if_true, unclaimed]
    · next abnormal => simp only [abnormal, Bool.false_eq_true, if_false]
  · next unread =>
    split
    · next spare read => exact absurd read (unread spare)
    · next erased => exact absurd erased kept
    · rfl

theorem block_claimed (claims : scan.card.claimed i = some logicalAddr) :
    scan.block logicalBlock i =
      if scan.translationTable logicalAddr = XD_INVALID_BLOCK_NUMBER then
        scan.enter logicalBlock i logicalAddr
      else scan.resolve i logicalAddr := by
  rw [XdCard.claimed] at claims
  rw [block]
  split at claims
  · next spare read =>
    rw [read]
    split at claims
    · next normal => simp only [normal, if_true, claims]
    · cases claims
  · cases claims

theorem resolve_incomplete {logicalAddrLast : Nat}
    (last : scan.card.lastAddr i = some logicalAddrLast) (differs : logicalAddrLast ≠ logicalAddr) :
    scan.resolve i logicalAddr = scan.eraseBlock i := by
  rw [resolve, last]
  simp only [differs, if_false]

theorem resolve_complete {logicalAddr1 logicalAddr2 : Nat}
    (last : scan.card.lastAddr i = some logicalAddr)
    (first : scan.card.pageAddr (scan.translationTable logicalAddr) 0 = some logicalAddr1)
    (second : scan.card.lastAddr (scan.translationTable logicalAddr) = some logicalAddr2)
    (differ : logicalAddr1 ≠ logicalAddr2) :
    scan.resolve i logicalAddr =
      { scan.eraseBlock (scan.translationTable logicalAddr) with
        translationTable := update scan.translationTable logicalAddr (inZone i) } := by
  rw [resolve, last]
  simp only [if_true, first, second, differ, if_false]

theorem resolve_cases (scan : XdScan) (i logicalAddr : Nat) :
    scan.resolve i logicalAddr = scan ∨
      (scan.card.lastAddr i ≠ none ∧ scan.resolve i logicalAddr = scan.eraseBlock i) ∨
      (scan.card.lastAddr (scan.translationTable logicalAddr) ≠ none ∧
        scan.resolve i logicalAddr =
          { scan.eraseBlock (scan.translationTable logicalAddr) with
            translationTable := update scan.translationTable logicalAddr (inZone i) }) := by
  rw [resolve]
  split
  · exact Or.inl rfl
  · next logicalAddrLast last =>
    have named : scan.card.lastAddr i ≠ none := by
      rw [last]
      exact Option.some_ne_none _
    split
    · split
      · exact Or.inl rfl
      · split
        · exact Or.inl rfl
        · next logicalAddr2 second =>
          split
          · exact Or.inr (Or.inl ⟨named, rfl⟩)
          · refine Or.inr (Or.inr ⟨?_, rfl⟩)
            rw [second]
            exact Option.some_ne_none _
    · exact Or.inr (Or.inl ⟨named, rfl⟩)

theorem blocks_eq_foldl {inserted : Nat → Bool} (stays : ∀ block, inserted block = true)
    (scan : XdScan) (blocks : List Nat) :
    scan.blocks inserted logicalBlock blocks =
      (true, blocks.foldl (fun scan i => scan.block logicalBlock i) scan) := by
  induction blocks generalizing scan with
  | nil => rfl
  | cons i rest ih =>
    rw [XdScan.blocks, List.foldl_cons]
    split
    · next unread =>
      have same : scan.block logicalBlock i = scan := by rw [block, unread]
      rw [if_pos (stays i), ih, same]
    · exact ih _

theorem erases_resolve (scan : XdScan) (i logicalAddr : Nat) :
    scan.card.erases ⊆ (scan.resolve i logicalAddr).card.erases := by
  rcases scan.resolve_cases i logicalAddr with same | ⟨-, erases⟩ | ⟨-, erases⟩
  · rw [same]
    exact List.Subset.refl _
  · rw [erases, card_eraseBlock]
    exact List.subset_cons_self _ _
  · rw [erases]
    simp only [card_eraseBlock]
    exact List.subset_cons_self _ _

theorem erases_block (scan : XdScan) (logicalBlock i : Nat) :
    scan.card.erases ⊆ (scan.block logicalBlock i).card.erases := by
  rcases claims : scan.card.claimed i with _ | logicalAddr
  · by_cases erased : scan.card.readSpare i 0 = .erased
    · rw [block_erased erased]
      exact List.Subset.refl _
    · rw [block_unclaimed erased claims]
      exact List.Subset.refl _
  · rw [block_claimed claims]
    split
    · rw [card_enter]
      exact List.Subset.refl _
    · exact scan.erases_resolve i logicalAddr

theorem erases_foldl (scan : XdScan) (logicalBlock : Nat) (blocks : List Nat) :
    scan.card.erases ⊆
      (blocks.foldl (fun scan i => scan.block logicalBlock i) scan).card.erases := by
  induction blocks generalizing scan with
  | nil => exact List.Subset.refl _
  | cons i rest ih =>
    exact List.Subset.trans (scan.erases_block logicalBlock i) (ih _)

end XdScan

/-! ## Any scan -/

/-- What holds of every scan, whichever copies come first, as long as only blocks of the
zone are erased. -/
structure Scanned (card : XdCard) (zone logicalBlock : Nat) (done : List Nat)
    (scan : XdScan) : Prop where
  kept : ∀ block ∉ scan.card.erases, scan.card.page block = card.page block
  processed : ∀ block ∈ scan.card.erases, block ∈ done
  named : ∀ block ∈ scan.card.erases, card.lastAddr block ≠ none
  second : zone ≠ 0 → ∀ block ∈ scan.card.erases,
    ∃ logicalAddr, card.claimed block = some logicalAddr ∧
      ∃ other ∈ done, other < block ∧ card.claimed other = some logicalAddr
  mapped : ∀ logicalAddr,
    scan.translationTable logicalAddr ≠ XD_INVALID_BLOCK_NUMBER →
      ∃ block ∈ done, card.claimed block = some logicalAddr ∧
        scan.translationTable logicalAddr = inZone block
  claims : ∀ block ∈ done, ∀ logicalAddr, card.claimed block = some logicalAddr →
    scan.translationTable logicalAddr ≠ XD_INVALID_BLOCK_NUMBER
  found : scan.bFindTargetBlock = true →
    ∃ block ∈ done, card.claimed block = some logicalBlock ∧
      scan.phyBlock = inZone block ∧
        ∀ other ∈ done, card.claimed other = some logicalBlock → block ≤ other
  missed : scan.bFindTargetBlock = false → ∀ block ∈ done, card.claimed block ≠ some logicalBlock

namespace Scanned

variable {cisBlock zone logicalBlock logicalAddr : Nat} {scan after : XdScan}

section

variable (scanned : Scanned card zone logicalBlock done scan)

include scanned

theorem page_of_notMem (new : i ∉ done) : scan.card.page i = card.page i :=
  scanned.kept i fun erased => new (scanned.processed i erased)

theorem alone (invalid : scan.translationTable logicalAddr = XD_INVALID_BLOCK_NUMBER) :
    ∀ block ∈ done, card.claimed block ≠ some logicalAddr :=
  fun block inside claims => scanned.claims block inside logicalAddr claims invalid

theorem unerased (same : after.card = scan.card) :
    (∀ block ∉ after.card.erases, after.card.page block = card.page block) ∧
      (∀ block ∈ after.card.erases, block ∈ done ++ [i]) ∧
      (∀ block ∈ after.card.erases, card.lastAddr block ≠ none) ∧
      (zone ≠ 0 → ∀ block ∈ after.card.erases,
        ∃ logicalAddr, card.claimed block = some logicalAddr ∧
          ∃ other ∈ done ++ [i], other < block ∧ card.claimed other = some logicalAddr) := by
  rw [same]
  refine ⟨scanned.kept, fun block erased => List.mem_append_left _
    (scanned.processed block erased), scanned.named, fun later block erased => ?_⟩
  obtain ⟨logicalAddr, claims, other, inside, less, shared⟩ := scanned.second later block erased
  exact ⟨logicalAddr, claims, other, List.mem_append_left _ inside, less, shared⟩

theorem unclaimed (free : card.claimed i = none) (sameCard : after.card = scan.card)
    (sameTable : after.translationTable = scan.translationTable)
    (samePhy : after.phyBlock = scan.phyBlock)
    (sameFound : after.bFindTargetBlock = scan.bFindTargetBlock) :
    Scanned card zone logicalBlock (done ++ [i]) after := by
  obtain ⟨kept, processed, named, second⟩ := scanned.unerased (i := i) sameCard
  have older : ∀ block ∈ done ++ [i], ∀ l, card.claimed block = some l → block ∈ done := by
    intro block inside l claims
    rcases List.mem_append.mp inside with inside | inside
    · exact inside
    · rw [List.mem_singleton.mp inside, free] at claims
      cases claims
  refine ⟨kept, processed, named, second, ?_, ?_, ?_, ?_⟩
  · intro l valid
    rw [sameTable] at valid ⊢
    obtain ⟨block, inside, rest⟩ := scanned.mapped l valid
    exact ⟨block, List.mem_append_left _ inside, rest⟩
  · intro block inside l claims
    rw [sameTable]
    exact scanned.claims block (older block inside l claims) l claims
  · intro found
    rw [sameFound] at found
    rw [samePhy]
    obtain ⟨block, inside, claims, phy, least⟩ := scanned.found found
    exact ⟨block, List.mem_append_left _ inside, claims, phy, fun other there named =>
      least other (older other there _ named) named⟩
  · intro found block inside claims
    rw [sameFound] at found
    exact scanned.missed found block (older block inside _ claims) claims

theorem enter (claims : card.claimed i = some logicalAddr)
    (invalid : scan.translationTable logicalAddr = XD_INVALID_BLOCK_NUMBER) :
    Scanned card zone logicalBlock (done ++ [i]) (scan.enter logicalBlock i logicalAddr) := by
  have alone := scanned.alone invalid
  have last : i ∈ done ++ [i] := List.mem_append_right done (List.mem_singleton_self i)
  obtain ⟨kept, processed, named, second⟩ :=
    scanned.unerased (i := i) (scan.card_enter logicalBlock i logicalAddr)
  refine ⟨kept, processed, named, second, ?_, ?_, ?_, ?_⟩
  · intro l valid
    rw [XdScan.translationTable_enter] at valid ⊢
    by_cases same : l = logicalAddr
    · rw [same, update_self]
      exact ⟨i, last, claims, rfl⟩
    · rw [update_of_ne same] at valid ⊢
      obtain ⟨block, inside, rest⟩ := scanned.mapped l valid
      exact ⟨block, List.mem_append_left _ inside, rest⟩
  · intro block inside l named
    rw [XdScan.translationTable_enter]
    by_cases same : l = logicalAddr
    · rw [same, update_self]
      exact inZone_ne_invalid i
    · rw [update_of_ne same]
      rcases List.mem_append.mp inside with inside | inside
      · exact scanned.claims block inside l named
      · rw [List.mem_singleton.mp inside, claims] at named
        exact absurd (Option.some.inj named).symm same
  · intro found
    rw [XdScan.enter] at found ⊢
    split
    · next target =>
      rw [target.1] at claims alone
      refine ⟨i, last, claims, rfl, fun other there shared => ?_⟩
      rcases List.mem_append.mp there with there | there
      · exact absurd shared (alone other there)
      · rw [List.mem_singleton.mp there]
    · next target =>
      rw [if_neg target] at found
      obtain ⟨block, inside, shared, phy, least⟩ := scanned.found found
      refine ⟨block, List.mem_append_left _ inside, shared, phy, fun other there named => ?_⟩
      rcases List.mem_append.mp there with there | there
      · exact least other there named
      · rw [List.mem_singleton.mp there, claims] at named
        rw [Option.some.inj named] at alone
        exact absurd shared (alone block inside)
  · intro found
    rw [XdScan.enter] at found
    split at found
    · cases found
    · next target =>
      intro block inside shared
      rcases List.mem_append.mp inside with inside | inside
      · exact scanned.missed found block inside shared
      · rw [List.mem_singleton.mp inside, claims] at shared
        exact target ⟨Option.some.inj shared, found⟩

end

theorem shared (scanned : Scanned card zone logicalBlock done scan)
    (sorted : ∀ block ∈ done, block < i) (claims : card.claimed i = some logicalAddr)
    (valid : scan.translationTable logicalAddr ≠ XD_INVALID_BLOCK_NUMBER)
    (kept : ∀ block ∉ after.card.erases, after.card.page block = card.page block)
    (erased : ∀ block ∈ after.card.erases, block ∈ scan.card.erases ∨
      (block ∈ done ++ [i] ∧ card.lastAddr block ≠ none ∧ (zone ≠ 0 → block = i)))
    (table : after.translationTable = scan.translationTable ∨
      after.translationTable = update scan.translationTable logicalAddr (inZone i))
    (samePhy : after.phyBlock = scan.phyBlock)
    (sameFound : after.bFindTargetBlock = scan.bFindTargetBlock) :
    Scanned card zone logicalBlock (done ++ [i]) after := by
  have last : i ∈ done ++ [i] := List.mem_append_right done (List.mem_singleton_self i)
  obtain ⟨first, firstInside, firstClaims, -⟩ := scanned.mapped logicalAddr valid
  refine ⟨kept, fun block there => ?_, fun block there => ?_, fun later block there => ?_,
    ?_, ?_, ?_, ?_⟩
  · rcases erased block there with there | ⟨there, -⟩
    · exact List.mem_append_left _ (scanned.processed block there)
    · exact there
  · rcases erased block there with there | ⟨-, named, -⟩
    · exact scanned.named block there
    · exact named
  · rcases erased block there with there | ⟨-, -, same⟩
    · obtain ⟨l, named, other, inside, less, shared⟩ := scanned.second later block there
      exact ⟨l, named, other, List.mem_append_left _ inside, less, shared⟩
    · rw [same later]
      exact
        ⟨logicalAddr, claims, first, List.mem_append_left _ firstInside,
          sorted first firstInside, firstClaims⟩
  · intro l named
    by_cases same : l = logicalAddr
    · rw [same] at named ⊢
      rcases table with table | table
      · rw [table] at named ⊢
        obtain ⟨block, inside, rest⟩ := scanned.mapped logicalAddr named
        exact ⟨block, List.mem_append_left _ inside, rest⟩
      · rw [table, update_self]
        exact ⟨i, last, claims, rfl⟩
    · have unchanged : after.translationTable l = scan.translationTable l := by
        rcases table with table | table
        · rw [table]
        · rw [table, update_of_ne same]
      rw [unchanged] at named ⊢
      obtain ⟨block, inside, rest⟩ := scanned.mapped l named
      exact ⟨block, List.mem_append_left _ inside, rest⟩
  · intro block inside l named
    have before : scan.translationTable l ≠ XD_INVALID_BLOCK_NUMBER := by
      rcases List.mem_append.mp inside with inside | inside
      · exact scanned.claims block inside l named
      · rw [List.mem_singleton.mp inside, claims] at named
        rwa [← Option.some.inj named]
    rcases table with table | table
    · rwa [table]
    · rw [table, update_apply]
      split
      · exact inZone_ne_invalid i
      · exact before
  · intro found
    rw [sameFound] at found
    rw [samePhy]
    obtain ⟨block, inside, named, phy, least⟩ := scanned.found found
    refine ⟨block, List.mem_append_left _ inside, named, phy, fun other there shared => ?_⟩
    rcases List.mem_append.mp there with there | there
    · exact least other there shared
    · rw [List.mem_singleton.mp there]
      exact Nat.le_of_lt (sorted block inside)
  · intro found block inside named
    rw [sameFound] at found
    rcases List.mem_append.mp inside with inside | inside
    · exact scanned.missed found block inside named
    · rw [List.mem_singleton.mp inside, claims] at named
      rw [Option.some.inj named] at firstClaims
      exact scanned.missed found first firstInside firstClaims

theorem page_erase (scanned : Scanned card zone logicalBlock done scan) (erased : Nat) :
    ∀ block ∉ (scan.card.erase erased).2.erases,
      (scan.card.erase erased).2.page block = card.page block := by
  intro block outside
  rw [XdCard.erases_erase, List.mem_cons, not_or] at outside
  rw [XdCard.page_erase_of_ne _ outside.1]
  exact scanned.kept block outside.2

theorem lastAddr_of_scan (scanned : Scanned card zone logicalBlock done scan) {block : Nat}
    (named : scan.card.lastAddr block ≠ none) : card.lastAddr block ≠ none := by
  by_cases erased : block ∈ scan.card.erases
  · exact scanned.named block erased
  · rwa [XdCard.lastAddr, ← XdCard.pageAddr_congr (scanned.kept block erased)]

theorem block (scanned : Scanned card zone logicalBlock done scan)
    (inside : done ++ [i] ⊆ zoneBlocks cisBlock zone) (sorted : ∀ block ∈ done, block < i)
    (within : (scan.block logicalBlock i).card.erases ⊆ zoneBlocks cisBlock zone) :
    Scanned card zone logicalBlock (done ++ [i]) (scan.block logicalBlock i) := by
  have last : i ∈ done ++ [i] := List.mem_append_right done (List.mem_singleton_self i)
  have new : i ∉ done := fun there => Nat.lt_irrefl i (sorted i there)
  have page := scanned.page_of_notMem new
  rcases claims : card.claimed i with _ | logicalAddr
  · have free : scan.card.claimed i = none := by rw [XdCard.claimed_congr page, claims]
    by_cases erased : scan.card.readSpare i 0 = .erased
    · rw [XdScan.block_erased erased]
      exact scanned.unclaimed claims rfl rfl rfl rfl
    · rw [XdScan.block_unclaimed erased free]
      exact scanned.unclaimed claims rfl rfl rfl rfl
  · have claimsNow : scan.card.claimed i = some logicalAddr := by
      rw [XdCard.claimed_congr page, claims]
    rw [XdScan.block_claimed claimsNow] at within ⊢
    split at within
    · next invalid =>
      rw [if_pos invalid]
      exact scanned.enter claims invalid
    · next valid =>
      rw [if_neg valid]
      rcases scan.resolve_cases i logicalAddr with same | ⟨named, erases⟩ | ⟨named, erases⟩
      · rw [same]
        exact
          scanned.shared sorted claims valid scanned.kept (fun block there => Or.inl there)
            (Or.inl rfl) rfl rfl
      · rw [erases]
        refine
          scanned.shared sorted claims valid ?_ ?_
            (Or.inl (scan.translationTable_eraseBlock i)) (scan.phyBlock_eraseBlock i)
            (scan.bFindTargetBlock_eraseBlock i)
        · rw [XdScan.card_eraseBlock]
          exact scanned.page_erase i
        · intro block there
          rw [XdScan.card_eraseBlock, XdCard.erases_erase, List.mem_cons] at there
          rcases there with rfl | there
          · exact Or.inr ⟨last, scanned.lastAddr_of_scan named, fun _ => rfl⟩
          · exact Or.inl there
      · rw [erases] at within ⊢
        refine
          scanned.shared sorted claims valid ?_ ?_ (Or.inr rfl)
            (scan.phyBlock_eraseBlock _) (scan.bFindTargetBlock_eraseBlock _)
        · simp only [XdScan.card_eraseBlock]
          exact scanned.page_erase _
        · intro block there
          simp only [XdScan.card_eraseBlock, XdCard.erases_erase, List.mem_cons] at within there
          rcases there with rfl | there
          · obtain ⟨first, firstInside, -, value⟩ := scanned.mapped logicalAddr valid
            have secondInside := within (List.mem_cons_self)
            by_cases zero : zone = 0
            · rw [zero] at inside
              have same : scan.translationTable logicalAddr = first := by
                rw [value]
                exact inZone_of_zero (inside (List.mem_append_left _ firstInside))
              refine Or.inr ⟨?_, scanned.lastAddr_of_scan named, fun later => absurd zero later⟩
              rw [same]
              exact List.mem_append_left _ firstInside
            · have large := le_of_mem_zoneBlocks secondInside zero
              rw [value, inZone_eq_mod] at large
              omega
          · exact Or.inl there

theorem foldl {rest : List Nat} (scanned : Scanned card zone logicalBlock done scan)
    (all : zoneBlocks cisBlock zone = done ++ rest)
    (within :
      (rest.foldl (fun scan i => scan.block logicalBlock i) scan).card.erases ⊆
        zoneBlocks cisBlock zone) :
    Scanned card zone logicalBlock (zoneBlocks cisBlock zone)
      (rest.foldl (fun scan i => scan.block logicalBlock i) scan) := by
  induction rest generalizing done scan with
  | nil =>
    rw [all, List.append_nil]
    exact scanned
  | cons i rest ih =>
    rw [List.append_cons] at all
    have sorted := zoneBlocks_sorted cisBlock zone
    rw [all, List.append_assoc, List.pairwise_append] at sorted
    have inside : done ++ [i] ⊆ zoneBlocks cisBlock zone := by
      rw [all]
      exact List.subset_append_left _ _
    refine ih (scanned.block inside ?_ ?_) all within
    · intro block there
      exact sorted.2.2 block there i (List.mem_append_left _ (List.mem_singleton_self i))
    · exact List.Subset.trans (XdScan.erases_foldl _ logicalBlock rest) within

end Scanned

end IteSdk.Xd
