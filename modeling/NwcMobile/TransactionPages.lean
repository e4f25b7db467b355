import NwcMobile.Foundations.Ranking
import NwcMobile.Host

/-!
Transaction pages: a host's transactions filtered by a list request, ranked from
the newest down, and cut to the request's offset and limit. The pages of one list
tile its history.
-/

namespace NwcMobile

open Ranking

variable {transactions : List WalletTransaction}
  {request narrow wide : ListTransactionsRequest}

/-- Whether a normalized transaction satisfies an engine-bounded list request. -/
def transactionMatches (transaction : WalletTransaction) (request : ListTransactionsRequest) :
    Bool :=
  if (request.from?.any fun start => decide (transaction.createdAt < start)) ||
      (request.until?.any fun stop => decide (stop < transaction.createdAt)) ||
      (request.direction.any fun direction => decide (transaction.direction ≠ direction)) then
    false
  else
    request.includeUnpaid ||
      match transaction.status with
      | .succeeded _ _ _ => true
      | _ => false

def matching (transactions : List WalletTransaction) (request : ListTransactionsRequest) :
    List WalletTransaction :=
  transactions.filter fun transaction => transactionMatches transaction request

def prepareTransactionPage (transactions : List WalletTransaction)
    (request : ListTransactionsRequest) : List WalletTransaction :=
  ((ranked WalletTransaction.createdAt (matching transactions request)).drop request.offset).take
    request.limit

/-- The first pages of a client that reads at offsets 0, `limit`, 2 `limit` and so on. -/
def historyPages (transactions : List WalletTransaction) (request : ListTransactionsRequest)
    (pages : Nat) : List WalletTransaction :=
  (List.range pages).flatMap fun index =>
    prepareTransactionPage transactions { request with offset := index * request.limit }

/-- As many pages as the wallet has transactions. -/
def fullHistory (transactions : List WalletTransaction) (request : ListTransactionsRequest) :
    List WalletTransaction :=
  historyPages transactions request transactions.length

/-- Every matching transaction once, newest first, equal times in input order. -/
structure IsHistory (transactions : List WalletTransaction) (request : ListTransactionsRequest)
    (history : List WalletTransaction) : Prop where
  complete : history.Perm (matching transactions request)
  newestFirst : history.Pairwise fun earlier later => later.createdAt ≤ earlier.createdAt
  tiesInOrder : ∀ time : UnixTimestamp,
    history.filter (fun transaction => transaction.createdAt = time) =
      (matching transactions request).filter fun transaction => transaction.createdAt = time

/-- A request whose window is at least as wide and which allows at least as much. -/
structure Widens (narrow wide : ListTransactionsRequest) : Prop where
  opensEarlier : ∀ start ∈ wide.from?, ∃ later ∈ narrow.from?, start ≤ later
  closesLater : ∀ stop ∈ wide.until?, ∃ earlier ∈ narrow.until?, earlier ≤ stop
  sameDirection : wide.direction = narrow.direction
  unpaid : narrow.includeUnpaid = true → wide.includeUnpaid = true

theorem transactionMatches_iff {transaction : WalletTransaction} :
    transactionMatches transaction request = true ↔
      (∀ start ∈ request.from?, start ≤ transaction.createdAt) ∧
      (∀ stop ∈ request.until?, transaction.createdAt ≤ stop) ∧
      (∀ direction ∈ request.direction, transaction.direction = direction) ∧
      (request.includeUnpaid = true ∨
        ∃ preimage amount fee, transaction.status = .succeeded preimage amount fee) := by
  unfold transactionMatches
  cases request.from? <;> cases request.until? <;> cases request.direction <;>
    cases transaction.status <;> simp [and_assoc]

theorem matches_of_widens {transaction : WalletTransaction} (h : Widens narrow wide)
    (hmatch : transactionMatches transaction narrow = true) :
    transactionMatches transaction wide = true := by
  obtain ⟨hfrom, huntil, hdirection, hpaid⟩ := transactionMatches_iff.mp hmatch
  apply transactionMatches_iff.mpr
  refine ⟨?_, ?_, ?_, ?_⟩
  · intro start hstart
    obtain ⟨later, hlater, hle⟩ := h.opensEarlier start hstart
    exact hle.trans (hfrom later hlater)
  · intro stop hstop
    obtain ⟨earlier, hearlier, hle⟩ := h.closesLater stop hstop
    exact (huntil earlier hearlier).trans hle
  · rw [h.sameDirection]
    exact hdirection
  · cases hpaid with
    | inl hunpaid => exact Or.inl (h.unpaid hunpaid)
    | inr hsettled => exact Or.inr hsettled

theorem matching_sublist (h : Widens narrow wide) :
    (matching transactions narrow).Sublist (matching transactions wide) := by
  apply List.monotone_filter_right
  intro transaction hmatch
  exact matches_of_widens h hmatch

/-- The offset and the limit select nothing but the page. -/
theorem historyPages_eq (transactions : List WalletTransaction)
    (request : ListTransactionsRequest) (pages : Nat) :
    historyPages transactions request pages =
      (List.range pages).flatMap fun index =>
        page request.limit (index * request.limit)
          (ranked WalletTransaction.createdAt (matching transactions request)) := rfl

/-- The pages together are the whole ranked list. -/
theorem fullHistory_eq (hlimit : 1 ≤ request.limit) :
    fullHistory transactions request =
      ranked WalletTransaction.createdAt (matching transactions request) := by
  rw [fullHistory, historyPages_eq]
  apply flatMap_page_eq
  rw [length_ranked]
  calc (matching transactions request).length
      ≤ transactions.length := List.length_filter_le _ _
    _ ≤ transactions.length * request.limit := Nat.le_mul_of_pos_right _ hlimit

theorem isHistory_ranked : IsHistory transactions request
    (ranked WalletTransaction.createdAt (matching transactions request)) where
  complete := ranked_perm
  newestFirst := ranked_pairwise
  tiesInOrder := filter_ranked

/-- With pages of at least one element, the pages of every list tile its history, and
a wider request's history keeps every element of a narrower one in its order. -/
theorem transaction_pages_tile (transactions : List WalletTransaction)
    (request : ListTransactionsRequest) (hlimit : 1 ≤ request.limit) :
    IsHistory transactions request (fullHistory transactions request) ∧
      (∀ pages, historyPages transactions request pages =
        (fullHistory transactions request).take (pages * request.limit)) ∧
      ∀ wide : ListTransactionsRequest, Widens request wide → 1 ≤ wide.limit →
        (fullHistory transactions request).Sublist (fullHistory transactions wide) := by
  rw [fullHistory_eq hlimit]
  refine ⟨isHistory_ranked, ?_, ?_⟩
  · intro pages
    rw [historyPages_eq, flatMap_page]
  · intro wide hwide hwideLimit
    rw [fullHistory_eq hwideLimit]
    exact ranked_sublist (matching_sublist hwide)

/-- Two payments of one second on either side of a page boundary. -/
theorem transaction_pages_tile_tie :
    let payment : UnixTimestamp → Nat → WalletTransaction := fun time amount =>
      ⟨none, .outgoing, amount, 0, time, none, .pending⟩
    let request : ListTransactionsRequest := ⟨none, none, 1, 0, none, true⟩
    let transactions := [payment 5 1, payment 9 2, payment 9 3]
    1 ≤ request.limit ∧ IsHistory transactions request (fullHistory transactions request) ∧
      fullHistory transactions request = [payment 9 2, payment 9 3, payment 5 1] := by
  intro payment request transactions
  have hlimit : 1 ≤ request.limit := by decide
  refine ⟨hlimit, (transaction_pages_tile transactions request hlimit).1, ?_⟩
  decide

end NwcMobile
