/-!
# Items that arrive in pieces

A `Source` is everything one reader will ever receive, cut into the pieces that
successive reads return. It is finite, and it ends: a peer that stays connected and
silent for ever has no `Source`. `read` takes at most one piece. `readExact` repeats it
until a buffer is full; `readExact_of_le` and `readExact_of_lt` show that its
result depends on the content alone, never on the cuts.
-/

namespace Base

/-- What a reader will receive: finitely many non-empty pieces, then the end of the stream or
an error that every later read repeats. -/
structure Source (α ε : Type) where
  pieces : List (List α)
  ending : Option ε
  flowing : [] ∉ pieces

namespace Source

variable {α ε : Type}

/-- The items still to come, without the cuts. -/
def content (source : Source α ε) : List α := source.pieces.flatten

/-- A single piece holding the whole content. -/
def ofContent (content : List α) (ending : Option ε) : Source α ε :=
  if filled : content = [] then ⟨[], ending, by simp⟩
  else ⟨[content], ending, by simpa using Ne.symm filled⟩

/-- The given pieces, without the empty ones. -/
def ofPieces (pieces : List (List α)) (ending : Option ε) : Source α ε :=
  ⟨pieces.filter fun piece => !piece.isEmpty, ending, by simp⟩

/-- What remains when a read of `limit` items has taken part of the first piece. -/
def cutPiece {piece : List α} {rest : List (List α)} (limit : Nat) (ending : Option ε)
    (flowing : [] ∉ piece :: rest) (partly : limit < piece.length) : Source α ε where
  pieces := piece.drop limit :: rest
  ending := ending
  flowing := by
    simp only [List.mem_cons, not_or] at flowing ⊢
    refine ⟨fun drained => ?_, flowing.2⟩
    have lengths := congrArg List.length drained
    simp only [List.length_nil, List.length_drop] at lengths
    omega

/-- What remains when a read has taken the whole first piece. -/
def dropPiece {piece : List α} {rest : List (List α)} (ending : Option ε)
    (flowing : [] ∉ piece :: rest) : Source α ε where
  pieces := rest
  ending := ending
  flowing := fun drained => flowing (List.mem_cons_of_mem _ drained)

/-- One read into a buffer of `limit` items. No items mean the end of the stream. -/
def read (limit : Nat) : Source α ε → Except ε (List α) × Source α ε
  | ⟨[], none, flowing⟩ => (.ok [], ⟨[], none, flowing⟩)
  | ⟨[], some error, flowing⟩ => (.error error, ⟨[], some error, flowing⟩)
  | ⟨piece :: _, ending, flowing⟩ =>
      if partly : limit < piece.length then
        (.ok (piece.take limit), cutPiece limit ending flowing partly)
      else (.ok piece, dropPiece ending flowing)

/-- Read until `count` items have arrived; `fuel` bounds the number of reads. -/
def fill (early : ε) : Nat → Nat → Source α ε → Except ε (List α) × Source α ε
  | _, 0, source => (.ok [], source)
  | 0, _ + 1, source => (.error early, source)
  | fuel + 1, count + 1, source =>
      match source.read (count + 1) with
      | (.ok [], after) => (.error early, after)
      | (.ok (item :: items), after) =>
          match fill early fuel (count + 1 - (item :: items).length) after with
          | (.ok more, final) => (.ok (item :: items ++ more), final)
          | (.error error, final) => (.error error, final)
      | (.error error, after) => (.error error, after)

/-- Fill a buffer of `count` items, failing with `early` when the stream ends first.
Each read returns at least one item, so `count` reads are enough. -/
def readExact (early : ε) (count : Nat) (source : Source α ε) :
    Except ε (List α) × Source α ε :=
  fill early count count source

/-- The error of a read that needs more than the stream still holds. -/
def shortage (early : ε) (source : Source α ε) : ε := source.ending.getD early

/-- A source in one piece has the content it was made from. -/
@[simp] theorem content_ofContent (content : List α) (ending : Option ε) :
    (ofContent content ending).content = content := by
  unfold ofContent Source.content
  split <;> simp_all

/-- However a content is cut, the source brings all of it. -/
@[simp] theorem content_ofPieces (pieces : List (List α)) (ending : Option ε) :
    (ofPieces pieces ending).content = pieces.flatten := by
  simp only [ofPieces, content]
  induction pieces with
  | nil => rfl
  | cons piece rest ih =>
      cases piece with
      | nil => exact ih
      | cons item items => exact congrArg (item :: items ++ ·) ih

/-- A piece that fits the buffer is read whole. -/
theorem read_ofPieces {piece : List α} {limit : Nat} (rest : List (List α)) (ending : Option ε)
    (filled : piece ≠ []) (fits : piece.length ≤ limit) :
    (ofPieces (piece :: rest) ending).read limit = (.ok piece, ofPieces rest ending) := by
  obtain ⟨item, items, rfl⟩ := List.exists_cons_of_ne_nil filled
  simp only [ofPieces, List.filter_cons, List.isEmpty_cons, Bool.not_false, if_true, read,
    dropPiece, dif_neg (Nat.not_lt.mpr fits)]

/-- A piece that is exactly as long as the buffer fills it in one read. -/
theorem readExact_ofPieces {piece : List α} {count : Nat} (early : ε) (rest : List (List α))
    (ending : Option ε) (filled : 0 < count) (exact : piece.length = count) :
    (ofPieces (piece :: rest) ending).readExact early count =
      (.ok piece, ofPieces rest ending) := by
  subst exact
  cases piece with
  | nil => cases filled
  | cons item items =>
      have whole := read_ofPieces rest ending (List.cons_ne_nil item items) (Nat.le_refl _)
      simp only [List.length_cons] at whole
      simp only [readExact, List.length_cons, fill, whole, Nat.sub_self, List.append_nil]

/-- A read at the end of the stream. -/
theorem read_of_empty {limit : Nat} {source : Source α ε} (ended : source.content = []) :
    source.read limit =
      (match source.ending with | none => .ok [] | some error => .error error, source) := by
  obtain ⟨pieces, ending, flowing⟩ := source
  cases pieces with
  | nil => cases ending <;> rfl
  | cons piece rest =>
      simp only [content, List.flatten_cons, List.append_eq_nil_iff] at ended
      simp [ended.1] at flowing

/-- A read before the end of the stream returns a non-empty prefix of the content that
fits the buffer, and leaves the rest. -/
theorem read_of_content {source : Source α ε} (limit : Nat) (room : 0 < limit)
    (more : source.content ≠ []) :
    ∃ taken after, source.read limit = (.ok taken, after) ∧ taken ≠ [] ∧
      taken.length ≤ limit ∧ source.content = taken ++ after.content ∧
      after.ending = source.ending := by
  obtain ⟨pieces, ending, flowing⟩ := source
  cases pieces with
  | nil => simp [content] at more
  | cons piece rest =>
      have filled : piece ≠ [] := by
        rintro rfl
        simp at flowing
      by_cases partly : limit < piece.length
      · refine ⟨piece.take limit, cutPiece limit ending flowing partly, by simp [read, partly],
          ?_, ?_, ?_, rfl⟩
        · intro none
          have lengths := congrArg List.length none
          simp only [List.length_take, List.length_nil] at lengths
          omega
        · simp only [List.length_take]
          omega
        · simp only [content, cutPiece, List.flatten_cons, ← List.append_assoc,
            List.take_append_drop]
      · exact ⟨piece, dropPiece ending flowing, by simp [read, partly], filled, by omega,
          by simp [content, dropPiece], rfl⟩

private theorem fill_of_le (early : ε) {fuel count : Nat} {source : Source α ε}
    (fuelled : count ≤ fuel) (enough : count ≤ source.content.length) :
    ∃ after, source.fill early fuel count = (.ok (source.content.take count), after) ∧
      after.content = source.content.drop count ∧ after.ending = source.ending := by
  induction fuel generalizing count source with
  | zero =>
      obtain rfl : count = 0 := by omega
      exact ⟨source, by simp [fill], by simp, rfl⟩
  | succ fuel ih =>
      cases count with
      | zero => exact ⟨source, by simp [fill], by simp, rfl⟩
      | succ count =>
          have more : source.content ≠ [] := by
            intro ended
            simp [ended] at enough
          obtain ⟨taken, middle, reads, filled, fits, split, ending⟩ :=
            read_of_content (count + 1) (by omega) more
          obtain ⟨item, items, rfl⟩ := List.exists_cons_of_ne_nil filled
          have lengths := congrArg List.length split
          simp only [List.length_append] at lengths
          obtain ⟨after, fills, rest, ending'⟩ :=
            @ih (count + 1 - (item :: items).length) middle
              (by simp only [List.length_cons]; omega) (by omega)
          refine ⟨after, ?_, ?_, ending'.trans ending⟩
          · simp only [fill, reads, fills]
            rw [split, List.take_append, List.take_of_length_le fits]
          · rw [rest, split, List.drop_append, List.drop_of_length_le fits, List.nil_append]

private theorem fill_of_lt (early : ε) {fuel count : Nat} {source : Source α ε}
    (fuelled : count ≤ fuel) (short : source.content.length < count) :
    ∃ after, source.fill early fuel count = (.error (source.shortage early), after) ∧
      after.content = [] ∧ after.ending = source.ending := by
  induction fuel generalizing count source with
  | zero => omega
  | succ fuel ih =>
      obtain ⟨count, rfl⟩ : ∃ smaller, count = smaller + 1 := ⟨count - 1, by omega⟩
      by_cases ended : source.content = []
      · refine ⟨source, ?_, ended, rfl⟩
        simp only [fill, read_of_empty ended, shortage]
        cases source.ending <;> rfl
      · obtain ⟨taken, middle, reads, filled, fits, split, ending⟩ :=
          read_of_content (count + 1) (by omega) ended
        obtain ⟨item, items, rfl⟩ := List.exists_cons_of_ne_nil filled
        have lengths := congrArg List.length split
        simp only [List.length_append] at lengths
        obtain ⟨after, fills, rest, ending'⟩ :=
          @ih (count + 1 - (item :: items).length) middle
            (by simp only [List.length_cons]; omega) (by omega)
        refine ⟨after, ?_, rest, ending'.trans ending⟩
        simp only [fill, reads, fills, shortage, ending]

/-- A buffer no longer than the content is filled with its leading items. -/
theorem readExact_of_le (early : ε) {count : Nat} {source : Source α ε}
    (enough : count ≤ source.content.length) :
    ∃ after, source.readExact early count = (.ok (source.content.take count), after) ∧
      after.content = source.content.drop count ∧ after.ending = source.ending :=
  fill_of_le early (Nat.le_refl count) enough

/-- A buffer longer than the content fails and drains the stream. -/
theorem readExact_of_lt (early : ε) {count : Nat} {source : Source α ε}
    (short : source.content.length < count) :
    ∃ after, source.readExact early count = (.error (source.shortage early), after) ∧
      after.content = [] ∧ after.ending = source.ending :=
  fill_of_lt early (Nat.le_refl count) short

/-- A read adds nothing to what is still to come. -/
theorem read_content_le (limit : Nat) (source : Source α ε) :
    (source.read limit).2.content.length ≤ source.content.length := by
  obtain ⟨pieces, ending, flowing⟩ := source
  cases pieces with
  | nil => cases ending <;> exact Nat.le_refl _
  | cons piece rest =>
      by_cases partly : limit < piece.length
      · simp [read, partly, content, cutPiece]
      · simp [read, partly, content, dropPiece]

/-- Reading adds nothing to what is still to come. -/
theorem readExact_content_le (early : ε) (count : Nat) (source : Source α ε) :
    (source.readExact early count).2.content.length ≤ source.content.length := by
  by_cases enough : count ≤ source.content.length
  · obtain ⟨after, reads, rest, -⟩ := readExact_of_le early enough
    simp [reads, rest]
  · obtain ⟨after, reads, rest, -⟩ := readExact_of_lt early (Nat.not_le.mp enough)
    simp [reads, rest]

end Source

end Base
