import IteSdk.Xd.TableRecovery

/-!
# The copy that a table chooses

With at most one complete copy of each logical block, the table of a zone should map the
logical block to it, and to the first copy where there are only incomplete ones.
-/

namespace IteSdk.Xd

open Lib Function

variable {card other : XdCard} {done blocks : List Nat} {scan after : XdScan}
  {cisBlock zone logicalBlock logicalAddr i : Nat}

/-! ## The choice -/

instance (card : XdCard) (block logicalAddr : Nat) : Decidable (card.Complete block logicalAddr) :=
  inferInstanceAs
    (Decidable (card.claimed block = some logicalAddr ∧ card.lastAddr block = some logicalAddr))

def chosen (card : XdCard) (blocks : List Nat) (logicalAddr : Nat) : Option Nat :=
  (blocks.find? fun block => card.Complete block logicalAddr).or
    (blocks.find? fun block => card.claimed block = some logicalAddr)

def OneComplete (card : XdCard) (blocks : List Nat) : Prop :=
  ∀ first ∈ blocks, ∀ second ∈ blocks, ∀ logicalAddr,
    card.Complete first logicalAddr → card.Complete second logicalAddr → first = second

theorem chosen_none :
    chosen card blocks logicalAddr = none ↔
      ∀ block ∈ blocks, card.claimed block ≠ some logicalAddr := by
  simp only [chosen, Option.or_eq_none_iff, List.find?_eq_none, decide_eq_true_eq]
  constructor
  · exact fun both => both.2
  · exact fun free => ⟨fun block inside complete => free block inside complete.1, free⟩

theorem chosen_some {block : Nat} (choice : chosen card blocks logicalAddr = some block) :
    block ∈ blocks ∧ card.claimed block = some logicalAddr ∧
      (card.Complete block logicalAddr ∨ ∀ other ∈ blocks, ¬ card.Complete other logicalAddr) := by
  rw [chosen, Option.or_eq_some_iff] at choice
  rcases choice with found | ⟨missed, found⟩
  · have complete := List.find?_some found
    rw [decide_eq_true_eq] at complete
    exact ⟨List.mem_of_find?_eq_some found, complete.1, Or.inl complete⟩
  · have claims := List.find?_some found
    rw [decide_eq_true_eq] at claims
    refine ⟨List.mem_of_find?_eq_some found, claims, Or.inr fun other inside => ?_⟩
    simpa using List.find?_eq_none.mp missed other inside

theorem chosen_complete {block : Nat} (inside : block ∈ blocks)
    (complete : card.Complete block logicalAddr)
    (only : ∀ other ∈ blocks, card.Complete other logicalAddr → other = block) :
    chosen card blocks logicalAddr = some block := by
  rcases choice : chosen card blocks logicalAddr with _ | first
  · exact absurd complete.1 (chosen_none.mp choice block inside)
  · obtain ⟨here, -, isComplete | none_⟩ := chosen_some choice
    · rw [only first here isComplete]
    · exact absurd complete (none_ block inside)

theorem chosen_append_unclaimed (free : card.claimed i ≠ some logicalAddr) :
    chosen card (done ++ [i]) logicalAddr = chosen card done logicalAddr := by
  have incomplete : ¬ card.Complete i logicalAddr := fun complete => free complete.1
  simp [chosen, List.find?_append, free, incomplete]

theorem chosen_append_first (claims : card.claimed i = some logicalAddr)
    (alone : chosen card done logicalAddr = none) :
    chosen card (done ++ [i]) logicalAddr = some i := by
  rw [chosen, Option.or_eq_none_iff] at alone
  rw [chosen, List.find?_append, List.find?_append, alone.1, alone.2]
  by_cases complete : card.Complete i logicalAddr
  · simp [complete]
  · simp [complete, claims]

theorem chosen_append_incomplete (incomplete : ¬ card.Complete i logicalAddr) {block : Nat}
    (choice : chosen card done logicalAddr = some block) :
    chosen card (done ++ [i]) logicalAddr = some block := by
  rw [chosen] at choice ⊢
  rw [List.find?_append, List.find?_append]
  simp only [List.find?_singleton, incomplete, decide_false, Bool.false_eq_true, if_false,
    Option.or_none]
  rcases first : done.find? fun block => card.Complete block logicalAddr with _ | b
  · rw [first, Option.none_or] at choice
    rw [choice]
    rfl
  · rw [first] at choice
    exact choice

theorem chosen_least {block other : Nat} (sorted : blocks.Pairwise (· < ·))
    (choice : chosen card blocks logicalAddr = some block)
    (none_ : ∀ other ∈ blocks, ¬ card.Complete other logicalAddr) (inside : other ∈ blocks)
    (claims : card.claimed other = some logicalAddr) : block ≤ other := by
  rw [chosen, List.find?_eq_none.mpr (by simpa using none_), Option.none_or,
    List.find?_eq_some_iff_append] at choice
  obtain ⟨-, before, rest, rfl, free⟩ := choice
  rw [List.pairwise_append, List.pairwise_cons] at sorted
  rcases List.mem_append.mp inside with inside | inside
  · have unclaimed := free other inside
    simp [claims] at unclaimed
  · rcases List.mem_cons.mp inside with rfl | inside
    · exact Nat.le_refl _
    · exact Nat.le_of_lt (sorted.2.1.1 other inside)

/-! ## The scan -/

def entry (choice : Option Nat) : Nat := choice.elim XD_INVALID_BLOCK_NUMBER inZone

/-- A copy that is not chosen and whose last page names a logical block. -/
def Superseded (card : XdCard) (blocks : List Nat) (block : Nat) : Prop :=
  card.lastAddr block ≠ none ∧
    ∃ logicalAddr, card.claimed block = some logicalAddr ∧
      chosen card blocks logicalAddr ≠ some block

/-- Where an incomplete copy comes before the complete one, the code resolves the two:
the zone is the first one, the last page of the incomplete copy names a logical block,
and it is not the logical block that is asked for. -/
def Buildable (card : XdCard) (cisBlock zone logicalBlock : Nat) : Prop :=
  ∀ complete ∈ zoneBlocks cisBlock zone, ∀ incomplete ∈ zoneBlocks cisBlock zone,
    ∀ logicalAddr, card.Complete complete logicalAddr →
      card.Incomplete incomplete logicalAddr →
        (∀ other ∈ zoneBlocks cisBlock zone,
            card.claimed other = some logicalAddr → incomplete ≤ other) →
          zone = 0 ∧ card.lastAddr incomplete ≠ none ∧ logicalAddr ≠ logicalBlock

structure Built (card : XdCard) (logicalBlock : Nat) (done : List Nat)
    (scan : XdScan) : Prop where
  worn : scan.card.worn = card.worn
  erased : ∀ block, block ∈ scan.card.erases ↔ block ∈ done ∧ Superseded card done block
  blank : ∀ block ∈ scan.card.erases, card.worn block = none →
    scan.card.page block = fun _ => some .erased
  table : ∀ logicalAddr, scan.translationTable logicalAddr = entry (chosen card done logicalAddr)
  phyBlock : scan.phyBlock = scan.translationTable logicalBlock
  stored : HeapOf scan.eraseBlockHeap fun block =>
    block ∈ done ∧
      (card.readSpare block 0 = .erased ∨ card.worn block = none ∧ block ∈ scan.card.erases)

@[simp] theorem entry_none : entry none = XD_INVALID_BLOCK_NUMBER := rfl

@[simp] theorem entry_some (block : Nat) : entry (some block) = inZone block := rfl

theorem entry_invalid {choice : Option Nat} :
    entry choice = XD_INVALID_BLOCK_NUMBER ↔ choice = none := by
  cases choice with
  | none => simp
  | some block => simp [inZone_ne_invalid]

theorem heap_eraseBlock (scan : XdScan) (block : Nat) :
    (scan.eraseBlock block).eraseBlockHeap =
      if scan.card.worn block = none then
        (scan.eraseBlockHeap.insertElement (inZone block)).2
      else scan.eraseBlockHeap := by
  rw [XdScan.eraseBlock]
  rcases worn : scan.card.worn block with _ | pages
  · simp [XdCard.erase, XdScan.store, worn]
  · simp [XdCard.erase, worn]

theorem zoneBlocks_split {rest : List Nat} (all : zoneBlocks cisBlock zone = done ++ i :: rest) :
    done.Pairwise (· < ·) ∧ (∀ block ∈ done, block < i) ∧
      done ++ [i] ⊆ zoneBlocks cisBlock zone ∧
        ∀ block ∈ zoneBlocks cisBlock zone, block ∈ done ∨ i ≤ block := by
  have sorted := zoneBlocks_sorted cisBlock zone
  rw [all, List.pairwise_append, List.pairwise_cons] at sorted
  refine ⟨sorted.1, fun block inside => sorted.2.2 block inside i List.mem_cons_self, ?_,
    fun block inside => ?_⟩
  · rw [all, List.append_cons done i rest]
    exact List.subset_append_left _ _
  · rw [all] at inside
    rcases List.mem_append.mp inside with inside | inside
    · exact Or.inl inside
    · rcases List.mem_cons.mp inside with rfl | inside
      · exact Or.inr (Nat.le_refl _)
      · exact Or.inr (Nat.le_of_lt (sorted.2.1.1 block inside))

theorem superseded_append_alone
    (alone : ∀ l, card.claimed i = some l → chosen card done l = none) {block : Nat}
    (inside : block ∈ done) :
    Superseded card (done ++ [i]) block ↔ Superseded card done block := by
  refine and_congr_right' (exists_congr fun l => and_congr_right fun claims => ?_)
  by_cases shared : card.claimed i = some l
  · exact absurd claims (chosen_none.mp (alone l shared) block inside)
  · rw [chosen_append_unclaimed shared]

namespace Built

theorem stored_inside (inside : done ⊆ zoneBlocks cisBlock zone) {stored : Nat → Prop} :
    ∀ block, block ∈ done ∧ stored block → block ∈ zoneBlocks cisBlock zone :=
  fun _ there => inside there.1

section

variable (built : Built card logicalBlock done scan)

include built

theorem stored_pass (new : i ∉ done) (kept : card.readSpare i 0 ≠ .erased) :
    HeapOf scan.eraseBlockHeap fun block =>
      block ∈ done ++ [i] ∧
        (card.readSpare block 0 = .erased ∨ card.worn block = none ∧ block ∈ scan.card.erases) := by
  refine built.stored.congr fun block => ?_
  rw [List.mem_append, List.mem_singleton]
  constructor
  · exact fun there => ⟨Or.inl there.1, there.2⟩
  · rintro ⟨inside | rfl, there⟩
    · exact ⟨inside, there⟩
    · rcases there with erased | ⟨-, erased⟩
      · exact absurd erased kept
      · exact absurd ((built.erased _).mp erased).1 new

theorem stored_store (new : i ∉ done) (inside : done ++ [i] ⊆ zoneBlocks cisBlock zone)
    (erased : card.readSpare i 0 = .erased) :
    HeapOf (scan.store i).eraseBlockHeap fun block =>
      block ∈ done ++ [i] ∧
        (card.readSpare block 0 = .erased ∨ card.worn block = none ∧ block ∈ scan.card.erases) := by
  obtain ⟨-, added⟩ :=
    built.stored.insert
      (stored_inside (List.Subset.trans (List.subset_append_left done [i]) inside))
      (inside (List.mem_append_right done (List.mem_singleton_self i)))
      fun there => new there.1
  refine added.congr fun block => ?_
  rw [List.mem_append, List.mem_singleton]
  constructor
  · rintro (rfl | there)
    · exact ⟨Or.inr rfl, Or.inl erased⟩
    · exact ⟨Or.inl there.1, there.2⟩
  · rintro ⟨there | rfl, state⟩
    · exact Or.inr ⟨there, state⟩
    · exact Or.inl rfl

theorem stored_erase (inside : done ++ [i] ⊆ zoneBlocks cisBlock zone)
    (kept : card.readSpare i 0 ≠ .erased) {block : Nat} (here : block ∈ done ++ [i])
    (unerased : card.readSpare block 0 ≠ .erased) (fresh : block ∉ scan.card.erases) :
    HeapOf (scan.eraseBlock block).eraseBlockHeap fun b =>
      b ∈ done ++ [i] ∧
        (card.readSpare b 0 = .erased ∨ card.worn b = none ∧ b ∈ block :: scan.card.erases) := by
  have inside' := List.Subset.trans (List.subset_append_left done [i]) inside
  rw [heap_eraseBlock, built.worn]
  split
  · next sound =>
    obtain ⟨-, added⟩ :=
      built.stored.insert (stored_inside inside') (inside here)
        fun there => there.2.elim unerased fun erased => fresh erased.2
    refine added.congr fun b => ?_
    rw [List.mem_append, List.mem_singleton, List.mem_cons]
    constructor
    · rintro (rfl | ⟨there, state⟩)
      · exact ⟨by simpa using here, Or.inr ⟨sound, Or.inl rfl⟩⟩
      · exact ⟨Or.inl there, state.imp_right (And.imp_right Or.inr)⟩
    · rintro ⟨there, erased | ⟨sound_, rfl | erased⟩⟩
      · rcases there with there | rfl
        · exact Or.inr ⟨there, Or.inl erased⟩
        · exact absurd erased kept
      · exact Or.inl rfl
      · exact Or.inr ⟨((built.erased b).mp erased).1, Or.inr ⟨sound_, erased⟩⟩
  · next worn =>
    refine built.stored.congr fun b => ?_
    rw [List.mem_append, List.mem_singleton, List.mem_cons]
    constructor
    · rintro ⟨there, state⟩
      exact ⟨Or.inl there, state.imp_right (And.imp_right Or.inr)⟩
    · rintro ⟨there, erased | ⟨sound, rfl | erased⟩⟩
      · rcases there with there | rfl
        · exact ⟨there, Or.inl erased⟩
        · exact absurd erased kept
      · exact absurd sound worn
      · exact ⟨((built.erased b).mp erased).1, Or.inr ⟨sound, erased⟩⟩

theorem blank_erase (erased : Nat) :
    ∀ block ∈ (scan.eraseBlock erased).card.erases, card.worn block = none →
      (scan.eraseBlock erased).card.page block = fun _ => some .erased := by
  intro block there sound
  rw [XdScan.card_eraseBlock] at there ⊢
  by_cases same : block = erased
  · rw [same] at sound ⊢
    rw [XdCard.erase, built.worn, sound]
    exact update_self _ _ _
  · rw [XdCard.page_erase_of_ne _ same]
    rw [XdCard.erases_erase, List.mem_cons] at there
    exact built.blank block (there.resolve_left same) sound

theorem pass (new : i ∉ done) (alone : ∀ l, card.claimed i = some l → chosen card done l = none)
    (sameCard : after.card = scan.card)
    (table : ∀ l, after.translationTable l = entry (chosen card (done ++ [i]) l))
    (phyBlock : after.phyBlock = after.translationTable logicalBlock)
    (stored : HeapOf after.eraseBlockHeap fun block =>
      block ∈ done ++ [i] ∧
        (card.readSpare block 0 = .erased ∨ card.worn block = none ∧ block ∈ scan.card.erases)) :
    Built card logicalBlock (done ++ [i]) after := by
  refine ⟨by rw [sameCard, built.worn], fun block => ?_,
    by rw [sameCard]; exact built.blank,
    table, phyBlock, by rwa [sameCard]⟩
  rw [sameCard, built.erased, List.mem_append, List.mem_singleton]
  constructor
  · rintro ⟨inside, superseded⟩
    exact ⟨Or.inl inside, (superseded_append_alone alone inside).mpr superseded⟩
  · rintro ⟨inside | rfl, superseded⟩
    · exact ⟨inside, (superseded_append_alone alone inside).mp superseded⟩
    · obtain ⟨-, l, claims, other⟩ := superseded
      exact absurd (chosen_append_first claims (alone l claims)) other

theorem enter (scanned : Scanned card zone logicalBlock done scan) (new : i ∉ done)
    (claims : card.claimed i = some logicalAddr) (alone : chosen card done logicalAddr = none) :
    Built card logicalBlock (done ++ [i]) (scan.enter logicalBlock i logicalAddr) := by
  have only : ∀ l, card.claimed i = some l → chosen card done l = none := by
    rw [claims]
    rintro l ⟨⟩
    exact alone
  refine built.pass new only (scan.card_enter _ _ _) (fun l => ?_) ?_ ?_
  · rw [XdScan.translationTable_enter, update_apply]
    split
    · next same =>
      rw [same, chosen_append_first claims alone, entry_some]
    · next apart =>
      rw [chosen_append_unclaimed, built.table]
      rw [claims]
      exact fun same => apart (Option.some.inj same).symm
  · rw [XdScan.translationTable_enter, XdScan.enter]
    split
    · next target => rw [target.1, update_self]
    · next target =>
      by_cases same : logicalAddr = logicalBlock
      · rw [same] at target alone
        have found : scan.bFindTargetBlock = true := by simpa using target
        obtain ⟨block, there, shared, -⟩ := scanned.found found
        exact absurd shared (chosen_none.mp alone block there)
      · rw [update_of_ne (Ne.symm same)]
        exact built.phyBlock
  · rw [XdScan.eraseBlockHeap_enter]
    exact built.stored_pass new (XdCard.not_erased_of_claimed claims)

theorem incomplete (scanned : Scanned card zone logicalBlock done scan) (new : i ∉ done)
    (inside : done ++ [i] ⊆ zoneBlocks cisBlock zone)
    (isIncomplete : card.Incomplete i logicalAddr) {first : Nat}
    (choice : chosen card done logicalAddr = some first) :
    Built card logicalBlock (done ++ [i]) (scan.resolve i logicalAddr) := by
  have claims := isIncomplete.1
  have last := XdCard.pageAddr_congr (scanned.page_of_notMem new) (XD_PAGEPERBLOCK - 1)
  have kept := XdCard.not_erased_of_claimed claims
  have notComplete : ∀ l, ¬ card.Complete i l := by
    intro l complete
    obtain rfl := Option.some.inj (claims.symm.trans complete.1)
    exact isIncomplete.2 complete.2
  have same : ∀ l, chosen card (done ++ [i]) l = chosen card done l := by
    intro l
    by_cases shared : card.claimed i = some l
    · obtain rfl := Option.some.inj (claims.symm.trans shared)
      rw [choice, chosen_append_incomplete (notComplete logicalAddr) choice]
    · exact chosen_append_unclaimed shared
  have superseded : ∀ block,
      Superseded card (done ++ [i]) block ↔ Superseded card done block := by
    intro block
    simp only [Superseded, same]
  have other : first ≠ i := ne_of_mem_of_not_mem (chosen_some choice).1 new
  rcases lastI : card.lastAddr i with _ | logicalAddrLast
  · have skips : scan.resolve i logicalAddr = scan := by
      rw [XdScan.resolve, XdCard.lastAddr, last, ← XdCard.lastAddr, lastI]
    rw [skips]
    refine ⟨built.worn, fun block => ?_, built.blank, fun l => by rw [built.table, same],
      built.phyBlock, built.stored_pass new kept⟩
    rw [built.erased, superseded, List.mem_append, List.mem_singleton]
    refine and_congr_left fun lost => (or_iff_left ?_).symm
    rintro rfl
    exact lost.1 lastI
  · have differs : logicalAddrLast ≠ logicalAddr := by
      rintro rfl
      exact isIncomplete.2 lastI
    rw [XdScan.resolve_incomplete (last.trans lastI) differs]
    have fresh : i ∉ scan.card.erases := fun erased => new ((built.erased i).mp erased).1
    refine ⟨?_, fun block => ?_, built.blank_erase i, fun l => ?_, ?_, ?_⟩
    · rw [XdScan.card_eraseBlock, XdCard.worn_erase, built.worn]
    · rw [XdScan.card_eraseBlock, XdCard.erases_erase, List.mem_cons, built.erased,
        superseded, List.mem_append, List.mem_singleton]
      constructor
      · rintro (rfl | ⟨there, lost⟩)
        · refine ⟨Or.inr rfl, by simp [lastI], logicalAddr, claims, ?_⟩
          rw [choice]
          exact fun chosen => other (Option.some.inj chosen)
        · exact ⟨Or.inl there, lost⟩
      · rintro ⟨there | rfl, lost⟩
        · exact Or.inr ⟨there, lost⟩
        · exact Or.inl rfl
    · rw [XdScan.translationTable_eraseBlock, built.table, same]
    · rw [XdScan.phyBlock_eraseBlock, XdScan.translationTable_eraseBlock, built.phyBlock]
    · rw [XdScan.card_eraseBlock, XdCard.erases_erase]
      exact
        built.stored_erase inside kept
          (List.mem_append_right done (List.mem_singleton_self i)) kept fresh

end

theorem complete {rest : List Nat} (built : Built card logicalBlock done scan)
    (scanned : Scanned card zone logicalBlock done scan)
    (all : zoneBlocks cisBlock zone = done ++ i :: rest)
    (one : OneComplete card (zoneBlocks cisBlock zone))
    (buildable : Buildable card cisBlock zone logicalBlock)
    (isComplete : card.Complete i logicalAddr) {first : Nat}
    (choice : chosen card done logicalAddr = some first) :
    Built card logicalBlock (done ++ [i]) (scan.resolve i logicalAddr) := by
  obtain ⟨ascending, sorted, inside, later⟩ := zoneBlocks_split all
  have new : i ∉ done := fun there => Nat.lt_irrefl i (sorted i there)
  have lastIn : i ∈ done ++ [i] := List.mem_append_right done (List.mem_singleton_self i)
  have kept := XdCard.not_erased_of_claimed isComplete.1
  have last := XdCard.pageAddr_congr (scanned.page_of_notMem new) (XD_PAGEPERBLOCK - 1)
  obtain ⟨firstIn, firstClaims, -⟩ := chosen_some choice
  have none_ : ∀ other ∈ done, ¬ card.Complete other logicalAddr := by
    intro other there complete
    have same :=
      one other (inside (List.mem_append_left _ there)) i (inside lastIn) logicalAddr
        complete isComplete
    rw [same] at there
    exact new there
  have firstIncomplete : card.Incomplete first logicalAddr :=
    (complete_or_incomplete firstClaims).resolve_left (none_ first firstIn)
  have least : ∀ other ∈ zoneBlocks cisBlock zone,
      card.claimed other = some logicalAddr → first ≤ other := by
    intro other there claims
    rcases later other there with earlier | after
    · exact chosen_least ascending choice none_ earlier claims
    · exact Nat.le_trans (Nat.le_of_lt (sorted first firstIn)) after
  obtain ⟨zero, named, other⟩ :=
    buildable i (inside lastIn) first (inside (List.mem_append_left _ firstIn)) logicalAddr
      isComplete firstIncomplete least
  have second : scan.translationTable logicalAddr = first := by
    rw [built.table, choice, entry_some]
    rw [zero] at inside
    exact inZone_of_zero (inside (List.mem_append_left _ firstIn))
  have fresh : first ∉ scan.card.erases := by
    intro erased
    obtain ⟨-, -, l, claims, unchosen⟩ := (built.erased first).mp erased
    obtain rfl := Option.some.inj (firstClaims.symm.trans claims)
    exact unchosen choice
  have page := scanned.kept first fresh
  obtain ⟨logicalAddr2, lastFirst⟩ := Option.ne_none_iff_exists'.mp named
  have differ : logicalAddr ≠ logicalAddr2 := by
    rintro rfl
    exact firstIncomplete.2 lastFirst
  have firstAddr : scan.card.pageAddr (scan.translationTable logicalAddr) 0 =
      some logicalAddr := by
    rw [second, XdCard.pageAddr_congr page, XdCard.pageAddr_of_claimed firstClaims]
  have secondAddr : scan.card.lastAddr (scan.translationTable logicalAddr) =
      some logicalAddr2 := by
    rw [second, XdCard.lastAddr, XdCard.pageAddr_congr page]
    exact lastFirst
  rw [XdScan.resolve_complete (last.trans isComplete.2) firstAddr secondAddr differ, second]
  have now : chosen card (done ++ [i]) logicalAddr = some i := by
    refine chosen_complete lastIn isComplete fun b there complete => ?_
    exact one b (inside there) i (inside lastIn) logicalAddr complete isComplete
  have others : ∀ l, l ≠ logicalAddr → chosen card (done ++ [i]) l = chosen card done l := by
    intro l apart
    refine chosen_append_unclaimed ?_
    rw [isComplete.1]
    exact fun same => apart (Option.some.inj same).symm
  refine ⟨?_, fun block => ?_, built.blank_erase first, fun l => ?_, ?_, ?_⟩
  · rw [XdScan.card_eraseBlock, XdCard.worn_erase, built.worn]
  · rw [XdScan.card_eraseBlock, XdCard.erases_erase, List.mem_cons, built.erased,
      List.mem_append, List.mem_singleton]
    constructor
    · rintro (rfl | ⟨there, lost, l, claims, unchosen⟩)
      · refine ⟨Or.inl firstIn, named, logicalAddr, firstClaims, ?_⟩
        rw [now]
        exact fun same => new (Option.some.inj same ▸ firstIn)
      · refine ⟨Or.inl there, lost, l, claims, ?_⟩
        by_cases same : l = logicalAddr
        · rw [same, now]
          exact fun chosen => new (Option.some.inj chosen ▸ there)
        · rwa [others l same]
    · rintro ⟨there | rfl, lost, l, claims, unchosen⟩
      · by_cases same : block = first
        · exact Or.inl same
        · refine Or.inr ⟨there, lost, l, claims, ?_⟩
          by_cases shared : l = logicalAddr
          · rw [shared, choice]
            exact fun chosen => same (Option.some.inj chosen).symm
          · rwa [← others l shared]
      · obtain rfl := Option.some.inj (isComplete.1.symm.trans claims)
        exact absurd now unchosen
  · by_cases same : l = logicalAddr
    · rw [same, now, entry_some]
      exact update_self _ _ _
    · rw [others l same, ← built.table]
      exact update_of_ne same _ _
  · rw [XdScan.phyBlock_eraseBlock, built.phyBlock]
    exact (update_of_ne other.symm _ _).symm
  · rw [XdScan.card_eraseBlock, XdCard.erases_erase]
    exact
      built.stored_erase inside kept (List.mem_append_left _ firstIn)
        (XdCard.not_erased_of_claimed firstClaims) fresh

section

variable (built : Built card logicalBlock done scan)

include built

theorem block {rest : List Nat} (scanned : Scanned card zone logicalBlock done scan)
    (all : zoneBlocks cisBlock zone = done ++ i :: rest)
    (one : OneComplete card (zoneBlocks cisBlock zone))
    (buildable : Buildable card cisBlock zone logicalBlock) :
    Built card logicalBlock (done ++ [i]) (scan.block logicalBlock i) := by
  obtain ⟨-, sorted, inside, -⟩ := zoneBlocks_split all
  have new : i ∉ done := fun there => Nat.lt_irrefl i (sorted i there)
  have page := scanned.page_of_notMem new
  rcases claims : card.claimed i with _ | logicalAddr
  · have alone : ∀ l, card.claimed i = some l → chosen card done l = none := by
      rw [claims]
      rintro l ⟨⟩
    have table : ∀ l, scan.translationTable l = entry (chosen card (done ++ [i]) l) := by
      intro l
      rw [chosen_append_unclaimed (by simp [claims]), built.table]
    by_cases erased : card.readSpare i 0 = .erased
    · rw [XdScan.block_erased (by rw [XdCard.readSpare_congr page, erased])]
      exact built.pass new alone rfl table built.phyBlock (built.stored_store new inside erased)
    · rw [XdScan.block_unclaimed (by rwa [XdCard.readSpare_congr page])
        (by rw [XdCard.claimed_congr page, claims])]
      exact built.pass new alone rfl table built.phyBlock (built.stored_pass new erased)
  · rw [XdScan.block_claimed (by rw [XdCard.claimed_congr page, claims])]
    split
    · next invalid =>
      rw [built.table, entry_invalid] at invalid
      exact built.enter scanned new claims invalid
    · next valid =>
      rw [built.table, entry_invalid] at valid
      obtain ⟨first, choice⟩ := Option.ne_none_iff_exists'.mp valid
      rcases complete_or_incomplete claims with isComplete | isIncomplete
      · exact built.complete scanned all one buildable isComplete choice
      · exact built.incomplete scanned new inside isIncomplete choice

theorem within (inside : done ⊆ zoneBlocks cisBlock zone) :
    scan.card.erases ⊆ zoneBlocks cisBlock zone :=
  fun block erased => inside ((built.erased block).mp erased).1

theorem foldl {rest : List Nat} (scanned : Scanned card zone logicalBlock done scan)
    (all : zoneBlocks cisBlock zone = done ++ rest)
    (one : OneComplete card (zoneBlocks cisBlock zone))
    (buildable : Buildable card cisBlock zone logicalBlock) :
    Built card logicalBlock (zoneBlocks cisBlock zone)
        (rest.foldl (fun scan i => scan.block logicalBlock i) scan) ∧
      Scanned card zone logicalBlock (zoneBlocks cisBlock zone)
        (rest.foldl (fun scan i => scan.block logicalBlock i) scan) := by
  induction rest generalizing done scan with
  | nil =>
    rw [all, List.append_nil]
    exact ⟨built, scanned⟩
  | cons i rest ih =>
    obtain ⟨-, sorted, inside, -⟩ := zoneBlocks_split all
    have next := built.block scanned all one buildable
    refine ih next (scanned.block inside sorted (next.within inside)) ?_
    rw [all, List.append_assoc]
    rfl

end

end Built

variable {inserted : Nat → Bool} {layer : XdLayer}

def emptyScan (card : XdCard) (garbage : Nat → Int) : XdScan :=
  { card := card
    translationTable := fun _ => XD_INVALID_BLOCK_NUMBER
    eraseBlockHeap := .create XD_PHYSIC_BLOCK_PER_ZONE garbage
    phyBlock := XD_INVALID_BLOCK_NUMBER
    bFindTargetBlock := false }

theorem scanned_empty (garbage : Nat → Int) (fresh : card.erases = []) :
    Scanned card zone logicalBlock [] (emptyScan card garbage) := by
  have unerased : ∀ block, block ∉ (emptyScan card garbage).card.erases := by
    intro block
    rw [emptyScan, fresh]
    exact List.not_mem_nil
  exact
    { kept := fun _ _ => rfl
      processed := fun block erased => absurd erased (unerased block)
      named := fun block erased => absurd erased (unerased block)
      second := fun _ block erased => absurd erased (unerased block)
      mapped := fun _ valid => absurd rfl valid
      claims := fun _ inside => absurd inside List.not_mem_nil
      found := fun found => Bool.noConfusion found
      missed := fun _ _ inside => absurd inside List.not_mem_nil }

theorem built_empty (garbage : Nat → Int) (fresh : card.erases = []) :
    Built card logicalBlock [] (emptyScan card garbage) := by
  have unerased : ∀ block, block ∉ (emptyScan card garbage).card.erases := by
    intro block
    rw [emptyScan, fresh]
    exact List.not_mem_nil
  exact
    { worn := rfl
      erased := fun block =>
        iff_of_false (unerased block) fun inside => absurd inside.1 List.not_mem_nil
      blank := fun block erased => absurd erased (unerased block)
      table := fun _ => rfl
      phyBlock := rfl
      stored := HeapOf.create garbage fun block there => absurd there.1 List.not_mem_nil }

def zoneScan (layer : XdLayer) (garbage : Nat → Int) (zone logicalBlock : Nat) : XdScan :=
  (zoneBlocks layer.cisBlock zone).foldl (fun scan i => scan.block logicalBlock i)
    (emptyScan layer.card garbage)

theorem generateTranslationTable_eq (stays : ∀ block, inserted block = true) (garbage : Nat → Int) :
    generateTranslationTable inserted (some garbage) layer zone logicalBlock =
      (true, (zoneScan layer garbage zone logicalBlock).phyBlock,
        { layer with
          card := (zoneScan layer garbage zone logicalBlock).card
          translationTable := (zoneScan layer garbage zone logicalBlock).translationTable
          eraseBlockHeap := some (zoneScan layer garbage zone logicalBlock).eraseBlockHeap }) := by
  rw [generateTranslationTable]
  simp only [XdScan.blocks_eq_foldl stays]
  rfl

namespace XdScan

end XdScan

end IteSdk.Xd
