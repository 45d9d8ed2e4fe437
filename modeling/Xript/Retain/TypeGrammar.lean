import Xript.Retain.ValidatorRef

namespace Xript

namespace TypeRef

inductive Part where
  | union
  | members
  | postfixed
  | primary

def isMark : Token → Bool
  | .pair => true
  | .question => true
  | _ => false

/-- The string form's grammar: a union is postfixed parts with bars between them, a postfixed part is a primary with marks
behind it, and a primary is a name or a union in parentheses. -/
inductive Written : Part → List Token → Prop
  | union {first others : List Token} : Written .postfixed first → Written .members others →
      Written .union (first ++ others)
  | lone : Written .members []
  | member {next others : List Token} : Written .postfixed next → Written .members others →
      Written .members (.bar :: (next ++ others))
  | marked {inner marks : List Token} : Written .primary inner → marks.all isMark = true →
      Written .postfixed (inner ++ marks)
  | name {v : JSString} : Written .primary [.name v]
  | group {inner : List Token} : Written .union inner → Written .primary (.opening :: (inner ++ [.closing]))

theorem parseUnion_some {fuel : Nat} {tokens rest : List Token} {node : TypeNode} :
    parseUnion (fuel + 1) tokens = some (node, rest) ↔ ∃ first middle others,
      parsePostfix fuel tokens = some (first, middle) ∧ parseMembers fuel middle = some (others, rest) ∧
        node = unionNode first others := by
  simp only [parseUnion, Option.bind_eq_bind, Option.bind_eq_some_iff, Prod.exists, Option.some.injEq, Prod.mk.injEq]
  constructor
  · rintro ⟨first, middle, read, others, _, members, rfl, rfl⟩
    exact ⟨first, middle, others, read, members, rfl⟩
  · rintro ⟨first, middle, others, read, members, rfl⟩
    exact ⟨first, middle, read, others, rest, members, rfl, rfl⟩

theorem parseMembers_bar {fuel : Nat} {tokens rest : List Token} {nodes : List TypeNode} :
    parseMembers (fuel + 1) (.bar :: tokens) = some (nodes, rest) ↔ ∃ next middle others,
      parsePostfix fuel tokens = some (next, middle) ∧ parseMembers fuel middle = some (others, rest) ∧
        nodes = next :: others := by
  simp only [parseMembers, Option.bind_eq_bind, Option.bind_eq_some_iff, Prod.exists, Option.some.injEq, Prod.mk.injEq]
  constructor
  · rintro ⟨next, middle, read, others, _, members, rfl, rfl⟩
    exact ⟨next, middle, others, read, members, rfl⟩
  · rintro ⟨next, middle, others, read, members, rfl⟩
    exact ⟨next, middle, read, others, rest, members, rfl, rfl⟩

theorem parseMembers_stop {fuel : Nat} {tokens : List Token} (stop : tokens.head? ≠ some .bar) :
    parseMembers (fuel + 1) tokens = some ([], tokens) := by
  cases tokens with
  | nil => rfl
  | cons token tokens =>
    cases token with
    | bar => exact absurd rfl stop
    | name | pair | question | opening | closing => rfl

theorem parsePostfix_some {fuel : Nat} {tokens rest : List Token} {node : TypeNode} :
    parsePostfix (fuel + 1) tokens = some (node, rest) ↔ ∃ inner middle,
      parsePrimary fuel tokens = some (inner, middle) ∧ parseMarks inner middle = (node, rest) := by
  simp only [parsePostfix, Option.bind_eq_bind, Option.bind_eq_some_iff, Prod.exists, Option.some.injEq]

theorem parsePrimary_group {fuel : Nat} {tokens rest : List Token} {node : TypeNode} :
    parsePrimary (fuel + 1) (.opening :: tokens) = some (node, rest) ↔
      parseUnion fuel tokens = some (node, .closing :: rest) := by
  simp only [parsePrimary, Option.bind_eq_bind, Option.bind_eq_some_iff, Prod.exists]
  constructor
  · rintro ⟨inner, after, read, closed⟩
    cases after with
    | nil => cases closed
    | cons token after =>
      cases token with
      | closing =>
        obtain ⟨rfl, rfl⟩ := Prod.mk.inj (Option.some.inj closed)
        exact read
      | name | bar | pair | question | opening => cases closed
  · intro read
    exact ⟨node, _, read, rfl⟩

theorem parsePrimary_some {fuel : Nat} {tokens rest : List Token} {node : TypeNode}
    (read : parsePrimary (fuel + 1) tokens = some (node, rest)) :
    (∃ v, tokens = .name v :: rest ∧ node = .name v) ∨
      ∃ inner, tokens = .opening :: inner ∧ parseUnion fuel inner = some (node, .closing :: rest) := by
  cases tokens with
  | nil => cases read
  | cons token tokens =>
    cases token with
    | name v =>
      obtain ⟨rfl, rfl⟩ := Prod.mk.inj (Option.some.inj read)
      exact .inl ⟨v, rfl, rfl⟩
    | opening => exact .inr ⟨tokens, rfl, parsePrimary_group.1 read⟩
    | bar | pair | question | closing => cases read

theorem parseMarks_split (node : TypeNode) (tokens : List Token) :
    ∃ marks, tokens = marks ++ (parseMarks node tokens).2 ∧ marks.all isMark = true := by
  fun_induction parseMarks node tokens with
  | case1 node tokens ih =>
    obtain ⟨marks, split, all⟩ := ih
    exact ⟨.pair :: marks, congrArg _ split, all⟩
  | case2 node tokens ih =>
    obtain ⟨marks, split, all⟩ := ih
    exact ⟨.question :: marks, congrArg _ split, all⟩
  | case3 node tokens => exact ⟨[], rfl, rfl⟩

theorem parseMarks_run {marks : List Token} (all : marks.all isMark = true) {rest : List Token}
    (stop : ∀ token, rest.head? = some token → isMark token = false) (node : TypeNode) :
    (parseMarks node (marks ++ rest)).2 = rest := by
  induction marks generalizing node with
  | nil =>
    cases rest with
    | nil => rfl
    | cons token rest =>
      have other := stop token rfl
      cases token with
      | pair | question => cases other
      | name | bar | opening | closing => rfl
  | cons token marks ih =>
    rw [List.all_cons, Bool.and_eq_true] at all
    cases token with
    | pair => exact ih all.2 (.array node)
    | question => exact ih all.2 (.optional node)
    | name | bar | opening | closing => cases all.1

/-- What a parse function has read is a part of its kind. -/
theorem parse_written (fuel : Nat) :
    (∀ tokens node rest, parseUnion fuel tokens = some (node, rest) →
      ∃ read, tokens = read ++ rest ∧ Written .union read) ∧
    (∀ tokens nodes rest, parseMembers fuel tokens = some (nodes, rest) →
      ∃ read, tokens = read ++ rest ∧ Written .members read) ∧
    (∀ tokens node rest, parsePostfix fuel tokens = some (node, rest) →
      ∃ read, tokens = read ++ rest ∧ Written .postfixed read) ∧
    ∀ tokens node rest, parsePrimary fuel tokens = some (node, rest) →
      ∃ read, tokens = read ++ rest ∧ Written .primary read := by
  induction fuel with
  | zero =>
    refine ⟨?_, ?_, ?_, ?_⟩
    all_goals
      intro tokens node rest read
      simp only [parseUnion, parseMembers, parsePostfix, parsePrimary, reduceCtorEq] at read
  | succ fuel ih =>
    obtain ⟨ofUnion, ofMembers, ofPostfix, ofPrimary⟩ := ih
    refine ⟨?_, ?_, ?_, ?_⟩
    · intro tokens node rest read
      obtain ⟨first, middle, others, readFirst, readOthers, -⟩ := parseUnion_some.1 read
      obtain ⟨one, rfl, writtenFirst⟩ := ofPostfix tokens first middle readFirst
      obtain ⟨more, rfl, writtenOthers⟩ := ofMembers middle others rest readOthers
      exact ⟨one ++ more, (List.append_assoc ..).symm, .union writtenFirst writtenOthers⟩
    · intro tokens nodes rest read
      by_cases bar : tokens.head? = some .bar
      · obtain ⟨tail, rfl⟩ := List.head?_eq_some_iff.mp bar
        obtain ⟨next, middle, others, readNext, readOthers, -⟩ := parseMembers_bar.1 read
        obtain ⟨one, rfl, writtenNext⟩ := ofPostfix tail next middle readNext
        obtain ⟨more, rfl, writtenOthers⟩ := ofMembers middle others rest readOthers
        refine ⟨.bar :: (one ++ more), ?_, .member writtenNext writtenOthers⟩
        rw [List.cons_append, List.append_assoc]
      · rw [parseMembers_stop bar] at read
        obtain ⟨-, rfl⟩ := Prod.mk.inj (Option.some.inj read)
        exact ⟨[], rfl, .lone⟩
    · intro tokens node rest read
      obtain ⟨inner, middle, readInner, marked⟩ := parsePostfix_some.1 read
      obtain ⟨one, rfl, writtenInner⟩ := ofPrimary tokens inner middle readInner
      obtain ⟨marks, split, all⟩ := parseMarks_split inner middle
      rw [marked] at split
      refine ⟨one ++ marks, ?_, .marked writtenInner all⟩
      rw [split, List.append_assoc]
    · intro tokens node rest read
      rcases parsePrimary_some read with ⟨v, rfl, -⟩ | ⟨inner, rfl, readInner⟩
      · exact ⟨[.name v], rfl, .name⟩
      · obtain ⟨one, rfl, writtenInner⟩ := ofUnion inner node _ readInner
        refine ⟨.opening :: (one ++ [.closing]), ?_, .group writtenInner⟩
        rw [List.cons_append, List.append_assoc, List.cons_append, List.nil_append]

/-- Tokens a union does not go on with. -/
def Ends (rest : List Token) : Prop := ∀ token, rest.head? = some token → isMark token = false ∧ token ≠ .bar

/-- With enough fuel for the part, its parse function reads it all. -/
def Completes : Part → List Token → Prop
  | .union, tokens => ∀ rest fuel, Ends rest → 4 * tokens.length + 2 ≤ fuel → ∃ node, parseUnion fuel (tokens ++ rest) = some (node, rest)
  | .members, tokens => ∀ rest fuel, Ends rest → 4 * tokens.length + 1 ≤ fuel → ∃ nodes, parseMembers fuel (tokens ++ rest) = some (nodes, rest)
  | .postfixed, tokens => ∀ rest fuel, (∀ token, rest.head? = some token → isMark token = false) →
      4 * tokens.length + 1 ≤ fuel → ∃ node, parsePostfix fuel (tokens ++ rest) = some (node, rest)
  | .primary, tokens => ∀ rest fuel, 4 * tokens.length ≤ fuel → ∃ node, parsePrimary fuel (tokens ++ rest) = some (node, rest)

theorem Written.members_head {others rest : List Token} (written : Written .members others)
    (stop : Ends rest) (token : Token) (head : (others ++ rest).head? = some token) : isMark token = false := by
  cases written with
  | lone => exact (stop token head).1
  | member =>
    obtain rfl := Option.some.inj head
    rfl

theorem Written.completes {part : Part} {tokens : List Token} (written : Written part tokens) : Completes part tokens := by
  induction written with
  | @union first others writtenFirst writtenOthers ihFirst ihOthers =>
    intro rest fuel stop room
    rw [List.length_append] at room
    obtain ⟨fuel, rfl⟩ : ∃ n, fuel = n + 1 := ⟨fuel - 1, by omega⟩
    obtain ⟨node, readFirst⟩ := ihFirst (others ++ rest) fuel (writtenOthers.members_head stop) (by omega)
    obtain ⟨nodes, readOthers⟩ := ihOthers rest fuel stop (by omega)
    exact ⟨unionNode node nodes, by rw [List.append_assoc]; exact parseUnion_some.2 ⟨_, _, _, readFirst, readOthers, rfl⟩⟩
  | lone =>
    intro rest fuel stop room
    obtain ⟨fuel, rfl⟩ : ∃ n, fuel = n + 1 := ⟨fuel - 1, by omega⟩
    refine ⟨[], parseMembers_stop ?_⟩
    intro bar
    exact (stop _ bar).2 rfl
  | @member next others writtenNext writtenOthers ihNext ihOthers =>
    intro rest fuel stop room
    rw [List.length_cons, List.length_append] at room
    obtain ⟨fuel, rfl⟩ : ∃ n, fuel = n + 1 := ⟨fuel - 1, by omega⟩
    obtain ⟨node, readNext⟩ := ihNext (others ++ rest) fuel (writtenOthers.members_head stop) (by omega)
    obtain ⟨nodes, readOthers⟩ := ihOthers rest fuel stop (by omega)
    refine ⟨node :: nodes, ?_⟩
    rw [List.cons_append, List.append_assoc]
    exact parseMembers_bar.2 ⟨_, _, _, readNext, readOthers, rfl⟩
  | @marked inner marks writtenInner all ih =>
    intro rest fuel stop room
    rw [List.length_append] at room
    obtain ⟨fuel, rfl⟩ : ∃ n, fuel = n + 1 := ⟨fuel - 1, by omega⟩
    obtain ⟨node, readInner⟩ := ih (marks ++ rest) fuel (by omega)
    refine ⟨(parseMarks node (marks ++ rest)).1, ?_⟩
    rw [List.append_assoc]
    exact parsePostfix_some.2 ⟨_, _, readInner, Prod.ext rfl (parseMarks_run all stop node)⟩
  | @name v =>
    intro rest fuel room
    rw [List.length_singleton] at room
    obtain ⟨fuel, rfl⟩ : ∃ n, fuel = n + 1 := ⟨fuel - 1, by omega⟩
    exact ⟨.name v, rfl⟩
  | @group inner writtenInner ih =>
    intro rest fuel room
    rw [List.length_cons, List.length_append, List.length_singleton] at room
    obtain ⟨fuel, rfl⟩ : ∃ n, fuel = n + 1 := ⟨fuel - 1, by omega⟩
    have stop : Ends (.closing :: rest) := by
      intro token head
      obtain rfl := Option.some.inj head
      refine ⟨rfl, ?_⟩
      intro same
      cases same
    obtain ⟨node, readInner⟩ := ih (.closing :: rest) fuel stop (by omega)
    refine ⟨node, ?_⟩
    rw [List.cons_append, List.append_assoc, List.cons_append, List.nil_append]
    exact parsePrimary_group.2 readInner

/-- More fuel reads no less. -/
theorem parse_more (fuel : Nat) :
    (∀ tokens node rest, parseUnion fuel tokens = some (node, rest) → parseUnion (fuel + 1) tokens = some (node, rest)) ∧
    (∀ tokens nodes rest, parseMembers fuel tokens = some (nodes, rest) →
      parseMembers (fuel + 1) tokens = some (nodes, rest)) ∧
    (∀ tokens node rest, parsePostfix fuel tokens = some (node, rest) →
      parsePostfix (fuel + 1) tokens = some (node, rest)) ∧
    ∀ tokens node rest, parsePrimary fuel tokens = some (node, rest) →
      parsePrimary (fuel + 1) tokens = some (node, rest) := by
  induction fuel with
  | zero =>
    refine ⟨?_, ?_, ?_, ?_⟩
    all_goals
      intro tokens node rest read
      simp only [parseUnion, parseMembers, parsePostfix, parsePrimary, reduceCtorEq] at read
  | succ fuel ih =>
    obtain ⟨ofUnion, ofMembers, ofPostfix, ofPrimary⟩ := ih
    refine ⟨?_, ?_, ?_, ?_⟩
    · intro tokens node rest read
      obtain ⟨first, middle, others, readFirst, readOthers, rfl⟩ := parseUnion_some.1 read
      exact parseUnion_some.2 ⟨_, _, _, ofPostfix _ _ _ readFirst, ofMembers _ _ _ readOthers, rfl⟩
    · intro tokens nodes rest read
      by_cases bar : tokens.head? = some .bar
      · obtain ⟨tail, rfl⟩ := List.head?_eq_some_iff.mp bar
        obtain ⟨next, middle, others, readNext, readOthers, rfl⟩ := parseMembers_bar.1 read
        exact parseMembers_bar.2 ⟨_, _, _, ofPostfix _ _ _ readNext, ofMembers _ _ _ readOthers, rfl⟩
      · rw [parseMembers_stop bar] at read ⊢
        exact read
    · intro tokens node rest read
      obtain ⟨inner, middle, readInner, marked⟩ := parsePostfix_some.1 read
      exact parsePostfix_some.2 ⟨_, _, ofPrimary _ _ _ readInner, marked⟩
    · intro tokens node rest read
      rcases parsePrimary_some read with ⟨v, rfl, rfl⟩ | ⟨inner, rfl, readInner⟩
      · rfl
      · exact parsePrimary_group.2 (ofUnion _ _ _ readInner)

theorem parseUnion_mono {fuel more : Nat} (le : fuel ≤ more) {tokens rest : List Token} {node : TypeNode}
    (read : parseUnion fuel tokens = some (node, rest)) : parseUnion more tokens = some (node, rest) := by
  induction le with
  | refl => exact read
  | step _ ih => exact (parse_more _).1 _ _ _ ih

/-- Whatever the fuel above the bound, all tokens are read exactly when they are a union, and as the same type. -/
theorem parseUnion_all {fuel : Nat} {tokens : List Token} (room : Retain.enough tokens.length ≤ fuel) :
    (∃ node, parseUnion fuel tokens = some (node, [])) ↔ Written .union tokens := by
  constructor
  · rintro ⟨node, read⟩
    obtain ⟨all, rfl, written⟩ := (parse_written fuel).1 _ _ _ read
    rwa [List.append_nil]
  · intro written
    have stop : Ends [] := by
      intro token head
      cases head
    have run := written.completes [] fuel stop (by rw [Retain.enough] at room; omega)
    rwa [List.append_nil] at run

end TypeRef

end Xript

