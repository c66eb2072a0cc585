import Mathlib.Data.List.Nodup
import XchainWallet.Json.ToNumber

/-!
# The deadlines that one tick finds

A tick of `DeadlineWatcher` reads the clocks of a chain, the orders, swaps and dispensers of each of
the user's addresses, and the open polls with the user's votes. `collectDeadlines` is what it makes
of the answers: the items whose deadline is ahead and inside the warning window, each once. A read
that fails adds nothing.

The expiration of an order, a swap or a dispenser is a time, compared with the time of the last
block. The end of a poll is a height, compared with the height of the chain.
-/

namespace XchainWallet

/-! ### Rows -/

/-- A member of a row. The numbers of the explorer are whole. -/
inductive RowValue
  | null
  | text (value : String)
  | number (value : ℤ)
deriving DecidableEq

namespace RowValue

/-- `String(v)`. -/
def string : RowValue → String
  | null => "null"
  | text value => value
  | number value => toString value

/-- `Number(v)`, where it is finite. -/
def finite? : RowValue → Option ℚ
  | null => some 0
  | number value => some value
  | text value =>
    match Json.numberOf value with
    | .finite units _ => some (units / 2 ^ Json.pointBits)
    | _ => none

end RowValue

/-- The members of an object by their names. -/
abbrev Members := String → Option RowValue

/-- `members[name]`, and `none` where that is `null` or absent. -/
def Members.read (members : Members) (name : String) : Option RowValue :=
  (members name).filter (· ≠ .null)

/-- `toNumber(v)`, where it is finite. -/
def toNumber (v : Option RowValue) : Option ℚ := (v.filter (· ≠ .text "")).bind RowValue.finite?

/-- `pickNumber(map, coin)`. -/
def pickNumber (map : Members) (coin : String) : Option ℚ := (map.read coin).bind RowValue.finite?

/-- A row with its `state`, where that is an object. -/
structure DeadlineRow where
  members : Members
  state : Option Members

namespace DeadlineRow

/-- `String(row.action_index ?? '')`, where it is not empty. -/
def actionIndex (row : DeadlineRow) : Option String :=
  ((row.members.read "action_index").map RowValue.string).filter (· ≠ "")

/-- `row.state?.expiration ?? row.expiration`, where it is a finite number. -/
def expiration (row : DeadlineRow) : Option ℚ :=
  toNumber ((row.state.bind (·.read "expiration")).or (row.members.read "expiration"))

/-- The lifecycle state, from the first member that has it. -/
def lifecycle (row : DeadlineRow) : Option RowValue :=
  (row.state.bind (·.read "status")).or <| (row.members.read "current_status").or <|
    (row.members.read "order_status").or <| (row.members.read "swap_status").or <|
      row.members.read "dispenser_status"

/-- `isOpenRow(row)`. The status is the validity of the action. -/
def isOpen (row : DeadlineRow) : Bool :=
  (row.members.read "status").all (·.string = "valid") ∧ row.lifecycle.all (·.string = "open")

/-- `{ ...row, ...detail, state: detail.state || row.state }`. -/
def withDetail (row detail : DeadlineRow) : DeadlineRow where
  members := fun name => (detail.members name).or (row.members name)
  state := detail.state.or row.state

end DeadlineRow

/-! ### Items -/

inductive DeadlineKind
  | order
  | swap
  | dispenser
  | poll
deriving DecidableEq

/-- The key of an item, `kind:actionIndex`. -/
structure DeadlineKey where
  kind : DeadlineKind
  actionIndex : String
deriving DecidableEq

/-- An item that is due. `remaining` is in seconds, also where the deadline is a block. -/
structure Deadline where
  key : DeadlineKey
  remaining : ℚ
  expiration : Option ℚ
  endBlock : Option ℚ

structure DeadlineSetup where
  windowSeconds : ℚ
  coinForChain : String → Option String

/-- `TARGET_BLOCK_SECONDS_BY_COIN`. -/
def targetBlockSecondsForCoin : Option String → Option ℕ
  | some "bitcoin" => some 600
  | some "litecoin" => some 150
  | some "dogecoin" => some 60
  | _ => none

/-- The maps of a status answer that are read, by their coins. -/
structure StatusMaps where
  lastBlockTime : Members
  chainTip : Members
  lastBlock : Members

/-- What the reads of one tick answer. `none` is a read that fails, or that the SDK does not have.
`coin` is the coin of the SDK's explorer. -/
structure TickAnswers where
  coin : Option String
  status : Option StatusMaps
  listed : DeadlineKind → String → Option (List DeadlineRow)
  action : String → Option DeadlineRow
  polls : Option (List Members)
  votes : String → Option (List Members)

namespace TickAnswers

/-- The block time of `_readClocks`. -/
def blockTime (answers : TickAnswers) : Option ℚ :=
  (answers.coin.filter (· ≠ "")).bind fun coin =>
    answers.status.bind fun status => pickNumber status.lastBlockTime coin

/-- The height of `_readClocks`: that of the node, or what the indexer has processed. -/
def height (answers : TickAnswers) : Option ℚ :=
  (answers.coin.filter (· ≠ "")).bind fun coin =>
    answers.status.bind fun status =>
      (pickNumber status.chainTip coin).or (pickNumber status.lastBlock coin)

/-! ### Orders, swaps and dispensers -/

/-- `hydrateDispenserDeadline(sdk, row)`. -/
def hydrateDispenserDeadline (answers : TickAnswers) (row : DeadlineRow) : DeadlineRow :=
  match row.members.read "action_index" with
  | none => row
  | some actionIndex => (answers.action actionIndex.string).elim row row.withDetail

/-- The row that a lane judges. -/
def live (answers : TickAnswers) (kind : DeadlineKind) (row : DeadlineRow) : DeadlineRow :=
  if kind = .dispenser then answers.hydrateDispenserDeadline row else row

end TickAnswers

/-- The deadline of a row, where it is ahead and inside the window. An expiration of 0 is none. -/
def marketDeadline (windowSeconds blockTime : ℚ) (kind : DeadlineKind) (row : DeadlineRow) :
    Option Deadline :=
  row.expiration.bind fun expiration =>
    let remaining := expiration - blockTime
    if ¬row.isOpen ∨ expiration ≤ 0 ∨ remaining ≤ 0 ∨ windowSeconds < remaining then none
    else row.actionIndex.map fun actionIndex =>
      ⟨⟨kind, actionIndex⟩, remaining, some expiration, none⟩

/-- `dedupeByKey(rows)`: the first of each key. -/
def dedupeByKey : List Deadline → List Deadline
  | [] => []
  | d :: rows => d :: (dedupeByKey rows).filter (·.key ≠ d.key)

/-- The kinds of `_collectMarketDeadlines`, in the order of its lanes. -/
def marketLanes : List DeadlineKind := [.order, .swap, .dispenser]

/-- `_collectMarketDeadlines(sdk, addrs, blockTime)`. -/
def collectMarketDeadlines (windowSeconds : ℚ) (answers : TickAnswers) (addrs : List String) :
    List Deadline :=
  match answers.blockTime with
  | none => []
  | some blockTime => dedupeByKey (addrs.flatMap fun address => marketLanes.flatMap fun kind =>
      ((answers.listed kind address).getD []).filterMap fun row =>
        marketDeadline windowSeconds blockTime kind (answers.live kind row))

/-! ### Polls -/

/-- The window in blocks, at least one. -/
def windowBlocks (windowSeconds : ℚ) (blockSeconds : ℕ) : ℤ :=
  max 1 ⌊windowSeconds / blockSeconds + 1 / 2⌋

/-- The poll that a vote points at. -/
def voteRef (vote : Members) : Option String :=
  (((vote.read "poll_action_index").or (vote.read "poll_index")).or (vote.read "poll_ref")).map
    RowValue.string

/-- The polls that the user has voted in, as far as the votes are answered. -/
def TickAnswers.votedIn (answers : TickAnswers) (addrs : List String) : List String :=
  addrs.flatMap fun address => ((answers.votes address).getD []).filterMap voteRef

/-- The index of an open poll, where it is not empty. -/
def pollIndex (poll : Members) : Option String :=
  ((poll.read "action_index").map RowValue.string).filter (· ≠ "")

/-- The deadline of a poll that the user has created or voted in. -/
def pollDeadline (blocks : ℤ) (blockSeconds : ℕ) (height : ℚ) (mine votedIn : List String)
    (poll : Members) : Option Deadline :=
  (pollIndex poll).bind fun actionIndex => (toNumber (poll.read "end_block")).bind fun endBlock =>
    let remaining := endBlock - height
    if ¬((poll.read "source").any (·.string ∈ mine) ∨ actionIndex ∈ votedIn) ∨ remaining ≤ 0 ∨
        blocks < remaining then none
    else some ⟨⟨.poll, actionIndex⟩, remaining * blockSeconds, none, some endBlock⟩

/-- `_collectPollDeadlines(sdk, chainId, addrs, height)`. -/
def collectPollDeadlines (setup : DeadlineSetup) (chainId : String) (answers : TickAnswers)
    (addrs : List String) : List Deadline :=
  match answers.height, targetBlockSecondsForCoin (setup.coinForChain chainId), answers.polls with
  | some height, some blockSeconds, some polls =>
    dedupeByKey (polls.filterMap (pollDeadline (windowBlocks setup.windowSeconds blockSeconds)
      blockSeconds height addrs (answers.votedIn addrs)))
  | _, _, _ => []

/-- What is due on a chain. -/
def collectDeadlines (setup : DeadlineSetup) (chainId : String) (answers : TickAnswers)
    (addrs : List String) : List Deadline :=
  collectMarketDeadlines setup.windowSeconds answers addrs ++
    collectPollDeadlines setup chainId answers addrs

/-! ### Each item once -/

theorem mem_dedupeByKey {d : Deadline} {rows : List Deadline} (h : d ∈ dedupeByKey rows) :
    d ∈ rows := by
  induction rows with
  | nil => exact h
  | cons d' rows ih =>
    rcases List.mem_cons.mp h with rfl | h
    · exact List.mem_cons_self
    · exact List.mem_cons_of_mem _ (ih (List.mem_of_mem_filter h))

/-- No key is lost. -/
theorem exists_mem_dedupeByKey {d : Deadline} {rows : List Deadline} (h : d ∈ rows) :
    ∃ d' ∈ dedupeByKey rows, d'.key = d.key := by
  induction rows with
  | nil => cases h
  | cons first rows ih =>
    by_cases hfirst : d.key = first.key
    · exact ⟨first, List.mem_cons_self, hfirst.symm⟩
    · rcases List.mem_cons.mp h with rfl | h
      · exact absurd rfl hfirst
      · obtain ⟨d', hd', hkey⟩ := ih h
        refine ⟨d', List.mem_cons_of_mem _ (List.mem_filter.mpr ⟨hd', ?_⟩), hkey⟩
        rw [decide_eq_true_eq, hkey]
        exact hfirst

theorem nodup_dedupeByKey (rows : List Deadline) : ((dedupeByKey rows).map Deadline.key).Nodup := by
  induction rows with
  | nil => exact List.nodup_nil
  | cons d rows ih =>
    rw [dedupeByKey, List.map_cons, List.nodup_cons]
    refine ⟨?_, ih.sublist (List.filter_sublist.map _)⟩
    rintro h
    obtain ⟨d', hd', hkey⟩ := List.mem_map.mp h
    exact of_decide_eq_true (List.mem_filter.mp hd').2 hkey

variable {setup : DeadlineSetup} {chainId : String} {answers : TickAnswers} {addrs : List String}

theorem kind_of_mem_collectMarketDeadlines {windowSeconds : ℚ} {d : Deadline}
    (h : d ∈ collectMarketDeadlines windowSeconds answers addrs) : d.key.kind ∈ marketLanes := by
  rw [collectMarketDeadlines] at h
  split at h
  · cases h
  · obtain ⟨address, -, h⟩ := List.mem_flatMap.mp (mem_dedupeByKey h)
    obtain ⟨kind, hkind, h⟩ := List.mem_flatMap.mp h
    obtain ⟨row, -, h⟩ := List.mem_filterMap.mp h
    obtain ⟨expiration, -, h⟩ := Option.bind_eq_some_iff.mp h
    dsimp only at h
    split at h
    · cases h
    · obtain ⟨actionIndex, -, rfl⟩ := Option.map_eq_some_iff.mp h
      exact hkind

theorem kind_of_mem_collectPollDeadlines {d : Deadline}
    (h : d ∈ collectPollDeadlines setup chainId answers addrs) : d.key.kind = .poll := by
  rw [collectPollDeadlines] at h
  split at h
  · obtain ⟨poll, -, h⟩ := List.mem_filterMap.mp (mem_dedupeByKey h)
    obtain ⟨actionIndex, -, h⟩ := Option.bind_eq_some_iff.mp h
    obtain ⟨endBlock, -, h⟩ := Option.bind_eq_some_iff.mp h
    dsimp only at h
    split at h
    · cases h
    · rw [← Option.some.inj h]
  · cases h

/-- **An item is due once**, whatever the explorer answers. -/
theorem nodup_collectDeadlines (setup : DeadlineSetup) (chainId : String) (answers : TickAnswers)
    (addrs : List String) :
    ((collectDeadlines setup chainId answers addrs).map Deadline.key).Nodup := by
  rw [collectDeadlines, List.map_append]
  refine List.Nodup.append ?_ ?_ ?_
  · rw [collectMarketDeadlines]
    split
    · exact List.nodup_nil
    · exact nodup_dedupeByKey _
  · rw [collectPollDeadlines]
    split
    · exact nodup_dedupeByKey _
    · exact List.nodup_nil
  · intro key hmarket hpoll
    obtain ⟨d, hd, rfl⟩ := List.mem_map.mp hmarket
    obtain ⟨d', hd', hkey⟩ := List.mem_map.mp hpoll
    have hkind := kind_of_mem_collectMarketDeadlines hd
    rw [← hkey, kind_of_mem_collectPollDeadlines hd'] at hkind
    exact absurd hkind (by decide)

/-! ### Items that are shown -/

/-- An item of the user's that is open and inside the warning window: who runs it, who of the user's
addresses has voted in it, and when it ends. -/
structure NearItem where
  key : DeadlineKey
  owner : String
  voters : List String
  deadline : ℚ
deriving DecidableEq

/-- A row has the item's index, is open and has its deadline. -/
def NearItem.Row (item : NearItem) (row : DeadlineRow) : Prop :=
  row.actionIndex = some item.key.actionIndex ∧ row.isOpen ∧ row.expiration = some item.deadline

instance (item : NearItem) (row : DeadlineRow) : Decidable (item.Row row) :=
  inferInstanceAs (Decidable (_ ∧ _))

namespace TickAnswers

/-- The list that the item stands on has it: a dispenser through the details of its action, where
these are answered. -/
def Lists (answers : TickAnswers) (item : NearItem) (rows : List DeadlineRow) : Prop :=
  if item.key.kind = .dispenser then
    ∃ row ∈ rows,
      (row.members.read "action_index").map RowValue.string = some item.key.actionIndex ∧
      ∀ detail ∈ answers.action item.key.actionIndex, item.Row (row.withDetail detail)
  else ∃ row ∈ rows, item.Row row

instance (answers : TickAnswers) (item : NearItem) (rows : List DeadlineRow) :
    Decidable (answers.Lists item rows) :=
  inferInstanceAs (Decidable (ite _ _ _))

/-- **A truthful market answer**: the reads that are answered show the item, and the time of the
last block lies inside the window before its deadline. -/
def ShowsMarket (answers : TickAnswers) (windowSeconds : ℚ) (item : NearItem) : Prop :=
  0 < item.deadline ∧ (∀ blockTime ∈ answers.blockTime,
      0 < item.deadline - blockTime ∧ item.deadline - blockTime ≤ windowSeconds) ∧
    ∀ rows ∈ answers.listed item.key.kind item.owner, answers.Lists item rows

/-- **A truthful answer about a poll.** -/
def ShowsPoll (answers : TickAnswers) (windowSeconds : ℚ) (blockSeconds : Option ℕ)
    (item : NearItem) : Prop :=
  item.key.actionIndex ≠ "" ∧
    (∀ height ∈ answers.height, ∀ seconds ∈ blockSeconds, 0 < item.deadline - height ∧
      item.deadline - height ≤ windowBlocks windowSeconds seconds) ∧
    (∀ polls ∈ answers.polls, ∃ poll ∈ polls,
      (poll.read "action_index").map RowValue.string = some item.key.actionIndex ∧
        (poll.read "source").map RowValue.string = some item.owner ∧
          toNumber (poll.read "end_block") = some item.deadline) ∧
    ∀ address ∈ item.voters, ∀ votes ∈ answers.votes address,
      ∃ vote ∈ votes, voteRef vote = some item.key.actionIndex

/-- What is answered of the item is true. -/
def Shows (answers : TickAnswers) (setup : DeadlineSetup) (chainId : String) (item : NearItem) :
    Prop :=
  if item.key.kind = .poll then
    answers.ShowsPoll setup.windowSeconds (targetBlockSecondsForCoin (setup.coinForChain chainId))
      item
  else answers.ShowsMarket setup.windowSeconds item

instance (answers : TickAnswers) (setup : DeadlineSetup) (chainId : String) (item : NearItem) :
    Decidable (answers.Shows setup chainId item) := by
  unfold Shows ShowsPoll ShowsMarket
  infer_instance

/-- **None of the reads fails that show the item**, and they ask for its addresses. -/
def Answers (answers : TickAnswers) (setup : DeadlineSetup) (chainId : String)
    (addrs : List String) (item : NearItem) : Prop :=
  if item.key.kind = .poll then
    answers.height ≠ none ∧ targetBlockSecondsForCoin (setup.coinForChain chainId) ≠ none ∧
      answers.polls ≠ none ∧ (item.owner ∈ addrs ∨
          ∃ address ∈ item.voters, address ∈ addrs ∧ answers.votes address ≠ none)
  else
    answers.blockTime ≠ none ∧ item.owner ∈ addrs ∧ answers.listed item.key.kind item.owner ≠ none ∧
        (item.key.kind = .dispenser → answers.action item.key.actionIndex ≠ none)

instance (answers : TickAnswers) (setup : DeadlineSetup) (chainId : String) (addrs : List String)
    (item : NearItem) : Decidable (answers.Answers setup chainId addrs item) := by
  unfold Answers
  infer_instance

end TickAnswers

/-- A row that shows an item makes it due. -/
theorem NearItem.Row.marketDeadline {item : NearItem} {row : DeadlineRow} (h : item.Row row)
    {windowSeconds blockTime : ℚ} (hpos : 0 < item.deadline)
    (hwindow : 0 < item.deadline - blockTime ∧ item.deadline - blockTime ≤ windowSeconds) :
    ∃ d, marketDeadline windowSeconds blockTime item.key.kind row = some d ∧ d.key = item.key := by
  obtain ⟨hindex, hopen, hexpiration⟩ := h
  refine ⟨⟨item.key, item.deadline - blockTime, some item.deadline, none⟩, ?_, rfl⟩
  rw [XchainWallet.marketDeadline, hexpiration, Option.bind_some]
  dsimp only
  rw [if_neg, hindex]
  · rfl
  · rintro (hclosed | hzero | hpast | hfar)
    · exact hclosed hopen
    · exact absurd hpos (not_lt.mpr hzero)
    · exact absurd hwindow.1 (not_lt.mpr hpast)
    · exact absurd hwindow.2 (not_le.mpr hfar)

/-- The list of an item has a row that shows it, once the details of a dispenser are there. -/
theorem TickAnswers.Lists.exists_live {item : NearItem} {rows : List DeadlineRow}
    (h : answers.Lists item rows)
    (haction : item.key.kind = .dispenser → answers.action item.key.actionIndex ≠ none) :
    ∃ row ∈ rows, item.Row (answers.live item.key.kind row) := by
  rw [Lists] at h
  by_cases hkind : item.key.kind = .dispenser
  · rw [if_pos hkind] at h
    obtain ⟨row, hrow, hindex, hdetail⟩ := h
    obtain ⟨detail, haction⟩ := Option.ne_none_iff_exists'.mp (haction hkind)
    obtain ⟨value, hvalue, hstring⟩ := Option.map_eq_some_iff.mp hindex
    refine ⟨row, hrow, ?_⟩
    rw [live, if_pos hkind, hydrateDispenserDeadline, hvalue]
    dsimp only
    rw [hstring, haction]
    exact hdetail detail haction
  · rw [if_neg hkind] at h
    obtain ⟨row, hrow, hshows⟩ := h
    refine ⟨row, hrow, ?_⟩
    rwa [live, if_neg hkind]

theorem mem_marketLanes {kind : DeadlineKind} (h : kind ≠ .poll) : kind ∈ marketLanes := by
  cases kind with
  | poll => exact absurd rfl h
  | order | swap | dispenser => decide

/-- **An item that the answers show is due.** -/
theorem TickAnswers.Shows.mem_collectDeadlines {item : NearItem}
    (h : answers.Shows setup chainId item) (hanswers : answers.Answers setup chainId addrs item) :
    item.key ∈ (collectDeadlines setup chainId answers addrs).map Deadline.key := by
  rw [collectDeadlines, List.map_append, List.mem_append]
  rw [Shows] at h
  rw [Answers] at hanswers
  by_cases hkind : item.key.kind = .poll
  · rw [if_pos hkind] at h hanswers
    obtain ⟨hne, hwindow, hpolls, hvotes⟩ := h
    obtain ⟨hheight, hseconds, hlisted, hinvolved⟩ := hanswers
    obtain ⟨height, hheight⟩ := Option.ne_none_iff_exists'.mp hheight
    obtain ⟨seconds, hseconds⟩ := Option.ne_none_iff_exists'.mp hseconds
    obtain ⟨polls, hlisted⟩ := Option.ne_none_iff_exists'.mp hlisted
    obtain ⟨poll, hpoll, hindex, hsource, hend⟩ := hpolls polls hlisted
    obtain ⟨hahead, hinside⟩ := hwindow height hheight seconds hseconds
    have hmine : (poll.read "source").any (·.string ∈ addrs) ∨
        item.key.actionIndex ∈ answers.votedIn addrs := by
      rcases hinvolved with howner | ⟨address, hvoter, haddress, hanswered⟩
      · obtain ⟨source, hsource, hstring⟩ := Option.map_eq_some_iff.mp hsource
        left
        rw [hsource, Option.any_some, hstring]
        exact decide_eq_true howner
      · obtain ⟨votes, hanswered⟩ := Option.ne_none_iff_exists'.mp hanswered
        obtain ⟨vote, hvote, href⟩ := hvotes address hvoter votes hanswered
        right
        refine List.mem_flatMap.mpr ⟨address, haddress, List.mem_filterMap.mpr ⟨vote, ?_, href⟩⟩
        rwa [hanswered, Option.getD_some]
    right
    rw [collectPollDeadlines, hheight, hseconds, hlisted]
    have hdue : pollDeadline (windowBlocks setup.windowSeconds seconds) seconds height addrs
        (answers.votedIn addrs) poll =
          some ⟨⟨.poll, item.key.actionIndex⟩, (item.deadline - height) * seconds, none,
            some item.deadline⟩ := by
      have hpollIndex : pollIndex poll = some item.key.actionIndex := by
        rw [pollIndex, hindex, Option.filter_some, if_pos (decide_eq_true hne)]
      rw [pollDeadline, hpollIndex, Option.bind_some, hend, Option.bind_some]
      dsimp only
      rw [if_neg]
      rintro (hstranger | hpast | hfar)
      · exact hstranger hmine
      · exact absurd hahead (not_lt.mpr hpast)
      · exact absurd hinside (not_le.mpr hfar)
    obtain ⟨d, hd, hkey⟩ := exists_mem_dedupeByKey (List.mem_filterMap.mpr ⟨poll, hpoll, hdue⟩)
    refine List.mem_map.mpr ⟨d, hd, hkey.trans ?_⟩
    rw [← hkind]
  · rw [if_neg hkind] at h hanswers
    obtain ⟨hpos, hwindow, hrows⟩ := h
    obtain ⟨hblockTime, howner, hlisted, haction⟩ := hanswers
    obtain ⟨blockTime, hblockTime⟩ := Option.ne_none_iff_exists'.mp hblockTime
    obtain ⟨rows, hlisted⟩ := Option.ne_none_iff_exists'.mp hlisted
    obtain ⟨row, hrow, hshows⟩ := (hrows rows hlisted).exists_live haction
    obtain ⟨d, hd, hkey⟩ := hshows.marketDeadline hpos (hwindow blockTime hblockTime)
    have hdue : d ∈ addrs.flatMap fun address => marketLanes.flatMap fun kind =>
        ((answers.listed kind address).getD []).filterMap fun row =>
          marketDeadline setup.windowSeconds blockTime kind (answers.live kind row) := by
      refine List.mem_flatMap.mpr ⟨item.owner, howner, List.mem_flatMap.mpr
        ⟨item.key.kind, mem_marketLanes hkind, List.mem_filterMap.mpr ⟨row, ?_, hd⟩⟩⟩
      rwa [hlisted, Option.getD_some]
    obtain ⟨d', hd', hkey'⟩ := exists_mem_dedupeByKey hdue
    left
    rw [collectMarketDeadlines, hblockTime]
    exact List.mem_map.mpr ⟨d', hd', hkey'.trans hkey⟩

end XchainWallet
