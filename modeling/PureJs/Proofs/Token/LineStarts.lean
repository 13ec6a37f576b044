import PureJs.Proofs.Token.Coverage
import PureJs.Proofs.Token.Respaced

/-!
Which tokens open their lines: those in front of which no other token begins on the line. Only a
string literal that goes on over a line feed can end on such a line without beginning there.
-/

namespace PureJs

namespace Position

variable {text above row : List Char}

/-- The beginnings of a text with all of its line feeds are those that go up to its last line. -/
theorem EndsIn.count_iff (ends : EndsIn text above row) (k : Nat) :
    (text.take k).count '\n' = text.count '\n' ↔ above.length ≤ k := by
  obtain ⟨rfl, closed, flat⟩ := ends
  have none : row.count '\n' = 0 := List.count_eq_zero.mpr flat
  rw [List.take_append, List.count_append, List.count_append, none, Nat.add_zero]
  have later : (row.take (k - above.length)).count '\n' = 0 :=
    List.count_eq_zero.mpr fun member => flat (List.mem_of_mem_take member)
  rw [later, Nat.add_zero]
  constructor
  · intro same
    by_contra short
    rcases closed with rfl | closed
    · exact short (Nat.zero_le k)
    · -- the line feed at the end is left out
      obtain ⟨front, rfl⟩ := List.getLast?_eq_some_iff.mp closed
      rw [List.length_append, List.length_singleton, Nat.not_le, Nat.lt_succ_iff] at short
      have fewer := (List.take_sublist k front).count_le '\n'
      rw [List.take_append_of_le_length short, List.count_append] at same
      simp at same
      omega
  · intro long
    rw [List.take_of_length_le long]

/-- In front of an offset on the last line, there is a line feed behind an earlier one exactly if
that one is on another line. -/
theorem EndsIn.feed_iff (ends : EndsIn text above row) {m n : Nat} (last : above.length ≤ n) :
    '\n' ∈ (text.take n).drop m ↔ m < above.length := by
  obtain ⟨rfl, closed, flat⟩ := ends
  rw [List.take_append, List.take_of_length_le last, List.drop_append, List.mem_append]
  have none : '\n' ∉ (row.take (n - above.length)).drop (m - above.length) :=
    fun member => flat (List.mem_of_mem_take (List.mem_of_mem_drop member))
  rw [or_iff_left none]
  constructor
  · intro member
    have long := List.length_pos_of_mem member
    rw [List.length_drop] at long
    omega
  · intro before
    rcases closed with rfl | closed
    · exact absurd before (Nat.not_lt_zero m)
    · obtain ⟨front, rfl⟩ := List.getLast?_eq_some_iff.mp closed
      rw [List.length_append, List.length_singleton, Nat.lt_succ_iff] at before
      simp [List.drop_append_of_le_length before]

end Position

namespace Token

theorem locate_opens {pieces : List Piece} {place : Position} {offset line : Nat}
    {before after : List Token} {t : Token}
    (split : locate place offset line pieces = before ++ t :: after)
    (inner : t.kind ≠ .endOfInput) :
    t.opensLine = decide (t.place.line ≠ (before.getLast?.map (·.place.line)).getD line) := by
  induction pieces generalizing place offset line before with
  | nil =>
    cases before with
    | nil =>
      obtain ⟨rfl, -⟩ := List.cons.inj split
      exact absurd rfl inner
    | cons first before => simp [locate] at split
  | cons piece rest ih =>
    cases piece with
    | gap part => exact ih split
    | lexeme kind part =>
      cases before with
      | nil =>
        obtain ⟨rfl, -⟩ := List.cons.inj split
        rfl
      | cons first before =>
        obtain ⟨rfl, later⟩ := List.cons.inj split
        rw [ih later, getLast_cons_get (·.place.line)]

/-- In front of the token, there is nothing of the earlier ones on its line, but only the end of
blanks and comments. -/
structure Leads (before : List Token) (above row : List Char) (t : Token) : Prop where
  apart : ∀ u ∈ before, u.stop ≤ above.length
  filled : ∃ gap, Piece.Filler (t.kind = .endOfInput) gap ∧ row <:+ gap

theorem Fills.line {text : List Char} {tokens : List Token} (fills : Fills [] text tokens)
    {t : Token}
    (member : t ∈ tokens) : t.place.line = (text.take t.start).count '\n' + 1 := by
  obtain ⟨before, after, split⟩ := List.append_of_mem member
  obtain ⟨past, gap, part, behind, whole, occupies, -⟩ := fills.each split
  have front : text.take t.start = past ++ gap := by
    rw [show text = _ from whole, occupies.start, List.take_left]
  rw [front, occupies.place]
  exact Position.after_count ..

section Front

variable {text : List Char} {tokens before after : List Token} {t : Token} {above row : List Char}

theorem before_last {lexed : List Token} {last : Token}
    (split : lexed ++ [last] = before ++ t :: after) : before ⊆ lexed := by
  have inner := congrArg List.dropLast split
  rw [List.dropLast_concat, List.dropLast_append_cons] at inner
  exact inner ▸ List.subset_append_left _ _

theorem Fills.in_front (fills : Fills [] text tokens) (split : tokens = before ++ t :: after)
    {u : Token} (member : u ∈ before) : u.start < u.stop ∧ u.stop ≤ t.start := by
  have ordered := fills.ordered.2
  obtain ⟨lexed, last, ends, -, -, -, each⟩ := fills.ends
  rw [split, List.pairwise_append] at ordered
  exact ⟨(each u (before_last (ends.symm.trans split) member)).2,
    ordered.2.2 u member t List.mem_cons_self⟩

theorem Fills.up_to_last (fills : Fills [] text tokens) (split : tokens = before ++ t :: after)
    {u v : Token} (member : u ∈ before) (last : v ∈ before.getLast?) :
    u.start ≤ v.start ∧ u.stop ≤ v.stop := by
  obtain ⟨init, rfl⟩ := List.getLast?_eq_some_iff.mp last
  have here := fills.in_front split (List.mem_append_right init (List.mem_singleton_self v))
  rcases List.mem_append.mp member with earlier | same
  · have front := fills.in_front (split.trans (List.append_assoc ..)) earlier
    omega
  · rw [List.mem_singleton.mp same]
    exact ⟨Nat.le_refl _, Nat.le_refl _⟩

theorem last_of_mem {u : Token} (member : u ∈ before) : ∃ v, v ∈ before.getLast? :=
  ⟨_, List.getLast?_eq_some_getLast (List.ne_nil_of_mem member)⟩

/-- Where the line of a token begins behind the beginning of an earlier one, that one is on another
line. -/
theorem Fills.shares_line_iff (fills : Fills [] text tokens) (split : tokens = before ++ t :: after)
    (ends : Position.EndsIn (text.take t.start) above row) {u : Token} (member : u ∈ before) :
    u.place.line = t.place.line ↔ above.length ≤ u.start := by
  have order := fills.in_front split member
  rw [← ends.count_iff u.start, List.take_take, Nat.min_eq_left (by omega)]
  subst split
  rw [fills.line (List.mem_append_left _ member), fills.line (t := t) (by simp)]
  omega

theorem Fills.leads_iff (fills : Fills [] text tokens) (split : tokens = before ++ t :: after)
    (ends : Position.EndsIn (text.take t.start) above row) :
    Leads before above row t ↔ ∀ u ∈ before.getLast?, u.stop ≤ above.length := by
  constructor
  · intro leads u last
    exact leads.apart u (List.mem_of_getLast? last)
  · intro short
    constructor
    · intro u member
      obtain ⟨v, last⟩ := last_of_mem member
      exact (fills.up_to_last split member last).2.trans (short v last)
    · obtain ⟨past, gap, part, behind, whole, occupies, length⟩ := fills.each split
      have front : text.take t.start = past ++ gap := by
        rw [show text = _ from whole, occupies.start, List.take_left]
      have within : past.length ≤ above.length := by
        cases last : before.getLast? with
        | none => simp [length, last]
        | some v => simpa [length, last] using short v last
      have lengths := congrArg List.length (front.symm.trans ends.whole)
      rw [List.length_append, List.length_append] at lengths
      exact ⟨gap, occupies.filler, List.suffix_of_suffix_length_le ⟨above, ends.whole.symm⟩
        ⟨past, front.symm⟩ (by omega)⟩

theorem Fills.opens_iff (fills : Fills [] text tokens) (split : tokens = before ++ t :: after)
    (ends : Position.EndsIn (text.take t.start) above row)
    (opens : t.opensLine =
      decide (t.place.line ≠ (before.getLast?.map (·.place.line)).getD 0)) :
    (t.opensLine = true ↔ ∀ u ∈ before.getLast?, u.start < above.length) ∧
      (t.opensLine = true ↔ ∀ u ∈ before, u.place.line ≠ t.place.line) := by
  have apart : ∀ u ∈ before, u.place.line ≠ t.place.line ↔ u.start < above.length :=
    fun u member => (not_congr (fills.shares_line_iff split ends member)).trans Nat.not_le
  have first : t.opensLine = true ↔ ∀ u ∈ before.getLast?, u.start < above.length := by
    rw [opens, decide_eq_true_iff]
    cases last : before.getLast? with
    | none =>
      have positive := fills.line (t := t) (by simp [split])
      simp [positive]
    | some v =>
      have member := List.mem_of_getLast? last
      simpa using ne_comm.trans (apart v member)
  refine ⟨first, first.trans ⟨fun only u member => ?_, fun each u last => ?_⟩⟩
  · obtain ⟨v, last⟩ := last_of_mem member
    rw [apart u member]
    exact Nat.lt_of_le_of_lt (fills.up_to_last split member last).1 (only v last)
  · have member := List.mem_of_getLast? last
    exact (apart u member).mp (each u member)

end Front

/-- A token opens its line if no other one begins there in front of it. It is the first one on the
line as well, unless a string literal that the token before it is ends there. -/
theorem opens_line_iff {text : List Char} {tokens before after : List Token} {t : Token}
    (scanned : scan text = .ok tokens) (split : tokens = before ++ t :: after)
    (inner : t.kind ≠ .endOfInput) :
    ∃ above row, Position.EndsIn (text.take t.start) above row ∧
      (t.opensLine = true ↔ ∀ u ∈ before, u.place.line ≠ t.place.line) ∧
      ((t.opensLine = true ↔ Leads before above row t) ↔
        ∀ u ∈ before.getLast?, u.kind = .string → '\n' ∈ slice text u →
          u.stop ≤ above.length) := by
  obtain ⟨lexed, finish, stop, ending, slices⟩ := scan_slices scanned
  obtain ⟨pieces, cuts, located⟩ := scan_cuts scanned
  have fills : Fills [] text tokens := located ▸ locate_fills cuts [] 0
  have opens := locate_opens (located.symm.trans split) inner
  obtain ⟨above, row, ends, -⟩ := Position.after_rows (text.take t.start)
  obtain ⟨first, apart⟩ := fills.opens_iff split ends opens
  refine ⟨above, row, ends, apart, ?_⟩
  rw [first, fills.leads_iff split ends]
  cases last : before.getLast? with
  | none => simp
  | some u =>
    have member := List.mem_of_getLast? last
    have order := fills.in_front split member
    have string : '\n' ∈ slice text u → u.kind = .string := by
      intro feed
      by_contra plain
      exact (slices u (before_last (ending.symm.trans split) member)).1.flat plain feed
    have feeds : above.length < u.stop → ('\n' ∈ slice text u ↔ u.start < above.length) := by
      intro long
      have within := ends.feed_iff (m := u.start) (Nat.le_of_lt long)
      rwa [List.take_take, Nat.min_eq_left order.2] at within
    simp only [Option.mem_some_iff, forall_eq']
    constructor
    · intro same _ feed
      by_contra long
      exact long (same.mp ((feeds (Nat.not_le.mp long)).mp feed))
    · intro only
      refine ⟨fun above_it => ?_, fun short => Nat.lt_of_lt_of_le order.1 short⟩
      by_contra long
      have feed := (feeds (Nat.not_le.mp long)).mpr above_it
      exact long (only (string feed) feed)

/-- A token behind comments of two lines, and a string literal behind it that goes on to the next
line. -/
def remarkedLine : List Char := "f \x7b- one\n-- two -\x7d = \"a\\\nb\"".toList

def remarkedName : Token := ⟨.identifier, "f", ⟨1, 1⟩, 0, 1, true⟩

def remarkedSign : Token := ⟨.mark .assign, "=", ⟨2, 11⟩, 19, 20, true⟩

theorem remarked_sign_leads :
    ∃ after, scan remarkedLine = .ok ([remarkedName] ++ remarkedSign :: after) ∧
      remarkedSign.kind ≠ .endOfInput ∧ ∃ above row,
        Position.EndsIn (remarkedLine.take remarkedSign.start) above row ∧
          Leads [remarkedName] above row remarkedSign := by
  have scanned : scan remarkedLine = .ok ([remarkedName] ++ remarkedSign ::
      [⟨.string, "a\nb", ⟨2, 13⟩, 21, 27, false⟩, endOfInput ⟨3, 3⟩ 27]) := by decide +kernel
  have inner : remarkedSign.kind ≠ .endOfInput := nofun
  obtain ⟨above, row, ends, -, same⟩ := opens_line_iff scanned rfl inner
  refine ⟨_, scanned, inner, above, row, ends, (same.mpr ?_).mp rfl⟩
  rintro u ⟨⟩ ⟨⟩

def brokenLine : List Char := "\"a\\\nb\" c".toList

def brokenString : Token := ⟨.string, "a\nb", ⟨1, 1⟩, 0, 6, true⟩

def brokenName : Token := ⟨.identifier, "c", ⟨2, 4⟩, 7, 8, true⟩

theorem string_end_overlooked :
    (∃ finish, scan brokenLine = .ok ([brokenString] ++ brokenName :: [finish])) ∧
      ∃ above row, Position.EndsIn (brokenLine.take brokenName.start) above row ∧
        ¬(brokenName.opensLine = true ↔ Leads [brokenString] above row brokenName) := by
  have scanned : scan brokenLine =
      .ok ([brokenString] ++ brokenName :: [endOfInput ⟨2, 5⟩ 8]) := by decide +kernel
  refine ⟨⟨_, scanned⟩, brokenLine.take 4, (brokenLine.take 7).drop 4,
    ⟨by decide, .inr (by decide), by decide⟩, fun same => ?_⟩
  have apart := (same.mp rfl).apart brokenString (List.mem_singleton_self _)
  exact absurd apart (by decide)

end Token

end PureJs
