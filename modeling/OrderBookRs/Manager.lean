import OrderBookRs.Repricing

/-!
# Many books under one manager

`manager.rs`: a manager keeps one book per symbol, and some of its calls go to every book. The book
of a symbol is what the calls that reached it make of a new book. The two managers of the source
differ in the channel for trade events, which is not modelled.
-/

namespace OrderBookRs

open OrderBook

/-- The map with every value replaced. -/
def AssocMap.mapValues {K V W : Type} (f : V → W) (m : AssocMap K V) : AssocMap K W :=
  ⟨m.entries.map fun e => ⟨e.1, f e.2⟩, m.nodupKeys.map₂ (fun _ => f) _⟩

/-- `BookManager`: one book per symbol, with the snapshot packages taken of it. -/
structure BookManager (L : Type) where
  books : AssocMap String (Session L) := ∅

/-- `ManagerError`. -/
inductive ManagerError
  | bookAlreadyExists (symbol : String)

/-- What `cancel_all_across_books`, `cancel_by_user_across_books`, `cancel_by_side_across_books`
and `evict_expired_across_books` call on each book. -/
inductive CrossCancel
  | all
  | byUser (user : Hash32)
  | bySide (side : Side)
  | expired (now : ℕ)

def CrossCancel.command : CrossCancel → Command
  | all => .cancelAllOrders
  | byUser user => .cancelOrdersByUser user
  | bySide side => .cancelOrdersBySide side
  | expired now => .evictExpiredOrders now

/-- A call on a manager, or on the book that `get_book` or `get_book_mut` finds. -/
inductive ManagerCall
  | addBook (symbol : String) (clock : Clock)
  | removeBook (symbol : String)
  | onBook (symbol : String) (c : PublicCall)
  | acrossBooks (c : CrossCancel)

variable {L : Type} [PriceLevel L] [SnapshotChecksum] [DisplayId] {symbol : String}

/-- `with_trade_listener`, with the listener of `add_book`: it only forwards. -/
def Session.managed (symbol : String) (clock : Clock) : Session L :=
  { book := (withClock symbol clock).configure (.tradeListener (some ⟨fun _ => []⟩)) }

namespace BookManager

/-- `add_book` refuses to overwrite a book. -/
def addBook (m : BookManager L) (symbol : String) (clock : Clock) :
    Except ManagerError Unit × BookManager L :=
  if symbol ∈ m.books then (.error (.bookAlreadyExists symbol), m)
  else (.ok (), ⟨m.books.insert symbol (.managed symbol clock)⟩)

/-- `remove_book`. -/
def removeBook (m : BookManager L) (symbol : String) : Option (Session L) × BookManager L :=
  (m.books.lookup symbol, ⟨m.books.erase symbol⟩)

/-- A public call on one book, if it is managed. -/
def onBook (m : BookManager L) (symbol : String) (c : PublicCall) : BookManager L :=
  match m.books.lookup symbol with
  | none => m
  | some s => ⟨m.books.insert symbol (s.call c)⟩

/-- A cancel on every book, and the replies by symbol. -/
def acrossBooks (m : BookManager L) (c : CrossCancel) : BookManager L × AssocMap String Reply :=
  (⟨m.books.mapValues fun s => s.call (.op (.command c.command))⟩,
    m.books.mapValues fun s => s.book.reply c.command)

/-- The manager after a call. -/
def step (m : BookManager L) : ManagerCall → BookManager L
  | .addBook symbol clock => (m.addBook symbol clock).2
  | .removeBook symbol => (m.removeBook symbol).2
  | .onBook symbol c => m.onBook symbol c
  | .acrossBooks c => (m.acrossBooks c).1

/-- The manager after a sequence of calls. -/
def run (m : BookManager L) (calls : List ManagerCall) : BookManager L := calls.foldl step m

end BookManager

/-- The clock a book was added with, and the public calls that reached it since. -/
abbrev BookHistory := Clock × List PublicCall

/-- What a call adds to the history of the book of one symbol. -/
def ManagerCall.record (symbol : String) (h : Option BookHistory) : ManagerCall → Option BookHistory
  | addBook s clock => if s = symbol then some (h.getD (clock, [])) else h
  | removeBook s => if s = symbol then none else h
  | onBook s c => if s = symbol then h.map fun h => (h.1, h.2 ++ [c]) else h
  | acrossBooks c => h.map fun h => (h.1, h.2 ++ [.op (.command c.command)])

/-- What the history makes of a new book. -/
def BookHistory.session (symbol : String) (h : BookHistory) : Session L :=
  h.2.foldl Session.call (.managed symbol h.1)

theorem BookHistory.session_concat (h : BookHistory) (c : PublicCall) :
    session symbol (h.1, h.2 ++ [c]) = (session symbol h : Session L).call c :=
  List.foldl_concat ..

open BookManager ManagerCall BookHistory

/-- **A step keeps the books and their histories together.** -/
theorem BookManager.lookup_step {m : BookManager L} {h : Option BookHistory}
    (hm : m.books.lookup symbol = h.map (session symbol)) (c : ManagerCall) :
    (m.step c).books.lookup symbol = (c.record symbol h).map (session symbol) := by
  cases c with
  | addBook s clock =>
    by_cases hs : s = symbol
    · subst hs
      cases h with
      | none =>
        have hnew : s ∉ m.books := AList.lookup_eq_none.mp hm
        simp [step, addBook, record, hnew, session]
      | some h =>
        have hmem : s ∈ m.books := AList.lookup_isSome.mp (by rw [hm]; rfl)
        simp [step, addBook, record, hmem, hm]
    · rw [record, if_neg hs, ← hm, step, addBook]
      split_ifs
      · rfl
      · exact AList.lookup_insert_ne (Ne.symm hs)
  | removeBook s =>
    by_cases hs : s = symbol
    · simp [step, removeBook, record, hs]
    · rw [record, if_neg hs, ← hm]
      exact AList.lookup_erase_ne (Ne.symm hs)
  | onBook s c =>
    by_cases hs : s = symbol
    · subst hs
      cases h with
      | none => simp [step, onBook, record, hm]
      | some h => simp [step, onBook, record, hm, session_concat]
    · rw [record, if_neg hs, ← hm, step, onBook]
      split
      · rfl
      · exact AList.lookup_insert_ne (Ne.symm hs)
  | acrossBooks c =>
    have hmap := List.dlookup_map₂ (l := m.books.entries)
      (f := fun _ s => Session.call s (.op (.command c.command))) symbol
    refine hmap.trans ?_
    rw [← AList.lookup, hm, record, Option.map_map, Option.map_map]
    simp only [Function.comp_def, session_concat]

/-- **No call on one book affects another**, in any interleaving: the book of a symbol is what the
calls that reached it make of a new book. -/
theorem managed_books_independent (calls : List ManagerCall) (symbol : String) :
    (BookManager.run {} calls : BookManager L).books.lookup symbol =
      (calls.foldl (record symbol) none).map (session symbol) := by
  suffices hrun : ∀ (m : BookManager L) h, m.books.lookup symbol = h.map (session symbol) →
      (m.run calls).books.lookup symbol = (calls.foldl (record symbol) h).map (session symbol) from
    hrun {} none rfl
  induction calls with
  | nil => exact fun m h hm => hm
  | cons c calls ih => exact fun m h hm => ih _ _ (lookup_step hm c)

end OrderBookRs
