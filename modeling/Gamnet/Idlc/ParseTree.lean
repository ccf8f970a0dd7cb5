import Gamnet.Idlc.Parser

/-!
# The parse tree of a file

How types, declarations and statements are written, in terms of the nodes that the parser
builds for them. MakeParseTree returns the nodes of a file exactly if the file is written so
(`makeParseTree_iff`); a file has at most one list of nodes (`stmtList_unique`), and every other
file ends the program, as long as its numbers and its length are within bounds
(`makeParseTree_exited_iff`).
-/

namespace Gamnet
namespace Idlc
namespace Parser

open Emission (Text TypeExpr VarName)
open Downcasts (VarDeclNode EnumDeclNode)
open ShiftReduce (Derives Result)

/-! The last number of each relation is how deep the stack of the parser gets. -/

/-- The tokens of a type. -/
inductive VarTypeTokens : TypeExpr → List Terminal → Nat → Prop
  | primitive (type : PrimitiveType) :
      VarTypeTokens (.primitive type) [.primitive type] 1
  | string :
      VarTypeTokens .string [.string] 1
  | userDefine (name : VarName) :
      VarTypeTokens (.userDefine name.text) [.varname name] 1
  | array {elmtType : TypeExpr} {ts : List Terminal} {n : Nat}
      (helmt : VarTypeTokens elmtType ts n) :
      VarTypeTokens (.array elmtType) (.array :: .less :: (ts ++ [.more])) (max n 2 + 2)
  | staticArray {elmtType : TypeExpr} {ts : List Terminal} {n : Nat} (elmtCount : Text)
      (helmt : VarTypeTokens elmtType ts n) :
      VarTypeTokens (.staticArray elmtType elmtCount)
        (.array :: .less :: (ts ++ [.comma, .integer elmtCount, .more])) (max n 4 + 2)
  | list {elmtType : TypeExpr} {ts : List Terminal} {n : Nat}
      (helmt : VarTypeTokens elmtType ts n) :
      VarTypeTokens (.list elmtType) (.list :: .less :: (ts ++ [.more])) (max n 2 + 2)
  | map {keyType elmtType : TypeExpr} {ts ts' : List Terminal} {m n : Nat}
      (hkey : VarTypeTokens keyType ts m)
      (helmt : VarTypeTokens elmtType ts' n) :
      VarTypeTokens (.map keyType elmtType)
        (.map :: .less :: (ts ++ .comma :: (ts' ++ [.more]))) (max m (max n 2 + 2) + 2)

/-- The tokens of a declaration of a variable. -/
inductive VarDeclTokens : VarDeclNode → List Terminal → Nat → Prop
  | varDecl {varType : TypeExpr} {ts : List Terminal} {n : Nat} (varName : VarName)
      (htype : VarTypeTokens varType ts n) :
      VarDeclTokens (.varDecl ⟨varType, varName⟩) (ts ++ [.varname varName, .semiColon])
        (max n 3)
  | comment :
      VarDeclTokens .comment [.comment] 1

/-- The tokens of an enumerator. The comma behind it is optional. -/
inductive EnumDeclTokens : EnumDeclNode → List Terminal → Nat → Prop
  | number (elmt : VarName) (number : Text) :
      EnumDeclTokens (.enumElmt elmt number) [.varname elmt, .equal, .integer number] 3
  | numberComma (elmt : VarName) (number : Text) :
      EnumDeclTokens (.enumElmt elmt number) [.varname elmt, .equal, .integer number, .comma] 4
  | plain (elmt : VarName) :
      EnumDeclTokens (.enumElmt elmt []) [.varname elmt] 1
  | plainComma (elmt : VarName) :
      EnumDeclTokens (.enumElmt elmt []) [.varname elmt, .comma] 2
  | comment :
      EnumDeclTokens .comment [.comment] 1

/-- The tokens of some nodes, one after the other. -/
inductive ListTokens {α : Type} (R : α → List Terminal → Nat → Prop) :
    List α → List Terminal → Nat → Prop
  | single {node : α} {ts : List Terminal} {n : Nat}
      (hnode : R node ts n) :
      ListTokens R [node] ts n
  | snoc {list : List α} {node : α} {ts ts' : List Terminal} {m n : Nat}
      (hlist : ListTokens R list ts m)
      (hnode : R node ts' n) :
      ListTokens R (list ++ [node]) (ts ++ ts') (max m (n + 1))

/-- The tokens between the braces and those behind them, and how much deeper the stack gets
there. -/
inductive BlockTokens {α : Type} (R : α → List Terminal → Nat → Prop) :
    List α → List Terminal → Nat → Prop
  | empty :
      BlockTokens R [] [.openBrace, .closeBrace, .semiColon] 3
  | list {list : List α} {ts : List Terminal} {n : Nat}
      (hlist : ListTokens R list ts n) :
      BlockTokens R list (.openBrace :: (ts ++ [.closeBrace, .semiColon])) (max n 3 + 1)

/-- The tokens of the name of a parent. -/
def parentTokens : Option VarName → List Terminal
  | none => []
  | some parentName => [.openParenthesis, .varname parentName, .closeParenthesis]

/-- The tokens of a statement. -/
inductive StmtTokens : Statement → List Terminal → Nat → Prop
  | message {list : List VarDeclNode} {ts : List Terminal} {n : Nat} {nSeqNo : Int}
      (name : VarName) (parentName : Option VarName) (number : Text)
      (hnumber : Literals.atoi number = some nSeqNo)
      (hblock : BlockTokens VarDeclTokens list ts n) :
      StmtTokens (.message name parentName nSeqNo list)
        (.message :: .varname name ::
          (parentTokens parentName ++ .colon :: .integer number :: ts))
        (n + 4 + (parentTokens parentName).length)
  | struct {list : List VarDeclNode} {ts : List Terminal} {n : Nat}
      (name : VarName) (parentName : Option VarName)
      (hblock : BlockTokens VarDeclTokens list ts n) :
      StmtTokens (.message name parentName (-1) list)
        (.struct :: .varname name :: (parentTokens parentName ++ ts))
        (n + 2 + (parentTokens parentName).length)
  | enum {list : List EnumDeclNode} {ts : List Terminal} {n : Nat} (name : VarName)
      (hblock : BlockTokens EnumDeclTokens list ts n) :
      StmtTokens (.enum name list) (.enum :: .varname name :: ts) (n + 2)
  | typedef {varDecl : VarDeclNode} {ts : List Terminal} {n : Nat}
      (hdecl : VarDeclTokens varDecl ts n) :
      StmtTokens (.typedef varDecl) (.typedef :: ts) (n + 1)
  | literal (sLanguage sContext : Text) :
      StmtTokens (.literal sLanguage sContext) [.language sLanguage, .literal sContext] 2
  | comment :
      StmtTokens .comment [.comment] 1

section Derivations

variable {ts : List Terminal} {n : Nat} {s s' s'' : Option (List Statement)}

theorem derives_of_eq
    {xs : List Nat} {vs : List Value} {m : Nat}
    (h : Derives grammar xs ts vs s s' m)
    (hroom : m = n) :
    Derives grammar xs ts vs s s' n :=
  hroom ▸ h

theorem derives_token
    {rest : List Nat} {vs : List Value}
    (t : Terminal)
    (hrest : Derives grammar rest ts vs s s' n) :
    Derives grammar (kind t :: rest) (t :: ts) (value t :: vs) s s' (n + 1) :=
  .terminal t hrest

/-- A number of a rule that is not the one for the start. -/
def isRule (yyn : Nat) : Bool :=
  1 < yyn && yyn < 52

theorem mem_numbers
    {yyn : Nat}
    (h : isRule yyn = true) :
    yyn ∈ grammar.numbers := by
  rw [isRule, Bool.and_eq_true, decide_eq_true_eq, decide_eq_true_eq] at h
  exact List.mem_range'_1.mpr h

/-- A rule is applied to all that there is. -/
theorem derives_rule
    {symbol x : Nat} {rest : List Nat} {vs : List Value} {v : Value}
    (yyn : Nat)
    (hnumber : isRule yyn = true)
    (hrule : rule yyn = ⟨symbol, x :: rest⟩)
    (hchildren : Derives grammar (x :: rest) ts vs s s' n)
    (hact : act yyn vs s' = some (v, s'')) :
    Derives grammar [symbol] ts [v] s s'' n := by
  have hlength := hchildren.length_le
  rw [List.length_cons] at hlength
  have hderives : Derives grammar [(rule yyn).lhs] (ts ++ []) [v] s s'' (max n 1) :=
    .rule yyn (mem_numbers hnumber)
      (by rw [show grammar.rule yyn = rule yyn from rfl, hrule]; exact hchildren)
      hact (.nil s'')
  rw [hrule, List.append_nil] at hderives
  exact derives_of_eq hderives (by omega)

/-- The number of the rule for a primitive type. -/
def primitiveRule (type : PrimitiveType) : Nat :=
  33 + primitives.idxOf type

theorem varName_derives
    (name : VarName) (s : Option (List Statement)) :
    Derives grammar [Nt.varName] [.varname name] [.varName name] s s 1 :=
  derives_rule 51 rfl rfl (derives_token (.varname name) (.nil s)) rfl

theorem userDefine_derives
    (name : VarName) (s : Option (List Statement)) :
    Derives grammar [Nt.userDefine] [.varname name] [.varName name] s s 1 :=
  derives_rule 50 rfl rfl (derives_token (.varname name) (.nil s)) rfl

theorem VarTypeTokens.derives
    {type : TypeExpr}
    (h : VarTypeTokens type ts n)
    (s : Option (List Statement)) :
    Derives grammar [Nt.varType] ts [.varType type] s s n := by
  induction h with
  | primitive type =>
      refine derives_rule (primitiveRule type) ?_ ?_ (derives_token (.primitive type) (.nil s)) ?_
      · cases type <;> rfl
      · cases type <;> rfl
      · cases type <;> rfl
  | string =>
      exact derives_rule 44 rfl rfl (derives_token .string (.nil s)) rfl
  | userDefine name =>
      exact derives_rule 49 rfl rfl (userDefine_derives name s) rfl
  | array helmt ih =>
      have hchildren := ih.append (derives_token .more (.nil s))
      exact derives_rule 45 rfl rfl (derives_token .array (derives_token .less hchildren))
        rfl
  | staticArray elmtCount helmt ih =>
      have hchildren := ih.append
        (derives_token .comma (derives_token (.integer elmtCount) (derives_token .more (.nil s))))
      exact derives_rule 46 rfl rfl (derives_token .array (derives_token .less hchildren))
        rfl
  | list helmt ih =>
      have hchildren := ih.append (derives_token .more (.nil s))
      exact derives_rule 47 rfl rfl (derives_token .list (derives_token .less hchildren))
        rfl
  | @map _ _ _ _ m n hkey helmt ihkey ihelmt =>
      have hchildren :=
        ihkey.append (derives_token .comma (ihelmt.append (derives_token .more (.nil s))))
      have hroom : max m (1 + (max n 2 + 1)) = max m (max n 2 + 2) := by omega
      exact derives_of_eq
        (derives_rule 48 rfl rfl (derives_token .map (derives_token .less hchildren)) rfl)
        (congrArg (· + 2) hroom)

theorem VarDeclTokens.derives
    {node : VarDeclNode}
    (h : VarDeclTokens node ts n)
    (s : Option (List Statement)) :
    Derives grammar [Nt.varDecl] ts [.varDecl node] s s n := by
  cases h with
  | varDecl varName htype =>
      have hchildren := (htype.derives s).append
        ((varName_derives varName s).append (derives_token .semiColon (.nil s)))
      exact derives_rule 30 rfl rfl hchildren rfl
  | comment =>
      exact derives_rule 31 rfl rfl (derives_token .comment (.nil s)) rfl

theorem EnumDeclTokens.derives
    {node : EnumDeclNode}
    (h : EnumDeclTokens node ts n)
    (s : Option (List Statement)) :
    Derives grammar [Nt.enumDecl] ts [.enumDecl node] s s n := by
  cases h with
  | number elmt number =>
      have hchildren := (varName_derives elmt s).append
        (derives_token .equal (derives_token (.integer number) (.nil s)))
      exact derives_rule 23 rfl rfl hchildren rfl
  | numberComma elmt number =>
      have hchildren := (varName_derives elmt s).append
        (derives_token .equal (derives_token (.integer number) (derives_token .comma (.nil s))))
      exact derives_rule 24 rfl rfl hchildren rfl
  | plain elmt =>
      exact derives_rule 25 rfl rfl (varName_derives elmt s) rfl
  | plainComma elmt =>
      have hchildren := (varName_derives elmt s).append (derives_token .comma (.nil s))
      exact derives_rule 26 rfl rfl hchildren rfl
  | comment =>
      exact derives_rule 27 rfl rfl (derives_token .comment (.nil s)) rfl

/-- A list has a rule for its first node, and one for each further node. -/
theorem ListTokens.derives
    {α : Type} {R : α → List Terminal → Nat → Prop} {list : List α}
    {symbol item : Nat} {nodes : List α → Value} {node : α → Value}
    (first next : Nat)
    (hitem : ∀ a ts n, R a ts n → Derives grammar [item] ts [node a] s s n)
    (h : ListTokens R list ts n)
    (hfirst : isRule first = true)
    (hnext : isRule next = true)
    (hfirstRule : rule first = ⟨symbol, [item]⟩)
    (hnextRule : rule next = ⟨symbol, [symbol, item]⟩)
    (hfirstAct : ∀ a, act first [node a] s = some (nodes [a], s))
    (hnextAct : ∀ list a, act next [nodes list, node a] s = some (nodes (list ++ [a]), s)) :
    Derives grammar [symbol] ts [nodes list] s s n := by
  induction h with
  | single hnode =>
      exact derives_rule first hfirst hfirstRule (hitem _ _ _ hnode) (hfirstAct _)
  | @snoc list a ts ts' m n hlist hnode ih =>
      have hchildren := ih.append (hitem _ _ _ hnode)
      have hroom : max m (1 + n) = max m (n + 1) := by rw [Nat.add_comm]
      exact derives_of_eq (derives_rule next hnext hnextRule hchildren (hnextAct _ _)) hroom

theorem varDeclList_derives
    {list : List VarDeclNode}
    (h : ListTokens VarDeclTokens list ts n)
    (s : Option (List Statement)) :
    Derives grammar [Nt.varDeclList] ts [.varDecls list] s s n :=
  ListTokens.derives 28 29 (fun _ _ _ hnode => hnode.derives s) h rfl rfl rfl rfl
    (fun _ => rfl) (fun _ _ => rfl)

theorem enumDeclList_derives
    {list : List EnumDeclNode}
    (h : ListTokens EnumDeclTokens list ts n)
    (s : Option (List Statement)) :
    Derives grammar [Nt.enumDeclList] ts [.enumDecls list] s s n :=
  ListTokens.derives 21 22 (fun _ _ _ hnode => hnode.derives s) h rfl rfl rfl rfl
    (fun _ => rfl) (fun _ _ => rfl)

/-- The braces around a list, and the semicolon. -/
theorem block_derives
    {symbol : Nat} {v : Value}
    (h : Derives grammar [symbol] ts [v] s s n) :
    Derives grammar [Tok.openBrace, symbol, Tok.closeBrace, Tok.semiColon]
      (.openBrace :: (ts ++ [.closeBrace, .semiColon])) [.none, v, .none, .none] s s
      (max n 3 + 1) :=
  derives_token .openBrace
    (h.append (derives_token .closeBrace (derives_token .semiColon (.nil s))))

theorem emptyBlock_derives
    (s : Option (List Statement)) :
    Derives grammar [Tok.openBrace, Tok.closeBrace, Tok.semiColon]
      [.openBrace, .closeBrace, .semiColon] [.none, .none, .none] s s 3 :=
  derives_token .openBrace (derives_token .closeBrace (derives_token .semiColon (.nil s)))

/-- What the keyword and the name of a message are followed by. -/
theorem named_derives
    {rest : List Nat} {vs : List Value}
    (keyword : Terminal) (name : VarName)
    (hrest : Derives grammar rest ts vs s s n) :
    Derives grammar (kind keyword :: Nt.varName :: rest) (keyword :: .varname name :: ts)
      (value keyword :: .varName name :: vs) s s (n + 2) := by
  have hroom : max 1 (1 + n) + 1 = n + 2 := by omega
  exact derives_of_eq (derives_token keyword ((varName_derives name s).append hrest)) hroom

/-- The name of a parent, in front of the rest. -/
theorem parent_derives
    {rest : List Nat} {vs : List Value}
    (parentName : VarName)
    (hrest : Derives grammar rest ts vs s s n) :
    Derives grammar (Tok.openParenthesis :: Nt.varName :: Tok.closeParenthesis :: rest)
      (parentTokens (some parentName) ++ ts)
      (.none :: .varName parentName :: .none :: vs) s s (n + 3) :=
  named_derives .openParenthesis parentName (derives_token .closeParenthesis hrest)

theorem message_derives
    {list : List VarDeclNode} {nSeqNo : Int} {number : Text}
    (name : VarName) (parentName : Option VarName)
    (hnumber : Literals.atoi number = some nSeqNo)
    (hblock : BlockTokens VarDeclTokens list ts n)
    (s : Option (List Statement)) :
    Derives grammar [Nt.message]
      (.message :: .varname name :: (parentTokens parentName ++ .colon :: .integer number :: ts))
      [.stmt (.message name parentName nSeqNo list)] s s
      (n + 4 + (parentTokens parentName).length) := by
  cases hblock with
  | empty =>
      have hrest :=
        derives_token .colon (derives_token (.integer number) (emptyBlock_derives s))
      cases parentName with
      | none =>
          refine derives_rule 12 rfl rfl (named_derives .message name hrest) ?_
          simp [act, build, root, message, value, hnumber]
      | some parentName =>
          refine derives_rule 14 rfl rfl
            (named_derives .message name (parent_derives parentName hrest)) ?_
          simp [act, build, root, message, value, hnumber]
  | list hlist =>
      have hrest := derives_token .colon
        (derives_token (.integer number) (block_derives (varDeclList_derives hlist s)))
      cases parentName with
      | none =>
          refine derives_rule 11 rfl rfl (named_derives .message name hrest) ?_
          simp [act, build, root, message, value, hnumber]
      | some parentName =>
          refine derives_rule 13 rfl rfl
            (named_derives .message name (parent_derives parentName hrest)) ?_
          simp [act, build, root, message, value, hnumber]

theorem struct_derives
    {list : List VarDeclNode}
    (name : VarName) (parentName : Option VarName)
    (hblock : BlockTokens VarDeclTokens list ts n)
    (s : Option (List Statement)) :
    Derives grammar [Nt.struct] (.struct :: .varname name :: (parentTokens parentName ++ ts))
      [.stmt (.message name parentName (-1) list)] s s
      (n + 2 + (parentTokens parentName).length) := by
  cases hblock with
  | empty =>
      have hrest := emptyBlock_derives s
      cases parentName with
      | none =>
          exact derives_rule 16 rfl rfl (named_derives .struct name hrest) rfl
      | some parentName =>
          exact derives_rule 18 rfl rfl
            (named_derives .struct name (parent_derives parentName hrest)) rfl
  | list hlist =>
      have hrest := block_derives (varDeclList_derives hlist s)
      cases parentName with
      | none =>
          exact derives_rule 15 rfl rfl (named_derives .struct name hrest) rfl
      | some parentName =>
          exact derives_rule 17 rfl rfl
            (named_derives .struct name (parent_derives parentName hrest)) rfl

theorem enum_derives
    {list : List EnumDeclNode}
    (name : VarName)
    (hblock : BlockTokens EnumDeclTokens list ts n)
    (s : Option (List Statement)) :
    Derives grammar [Nt.enum] (.enum :: .varname name :: ts) [.stmt (.enum name list)] s s
      (n + 2) := by
  cases hblock with
  | empty =>
      exact derives_rule 19 rfl rfl (named_derives .enum name (emptyBlock_derives s)) rfl
  | list hlist =>
      have hrest := block_derives (enumDeclList_derives hlist s)
      exact derives_rule 20 rfl rfl (named_derives .enum name hrest) rfl

theorem StmtTokens.derives
    {stmt : Statement}
    (h : StmtTokens stmt ts n)
    (s : Option (List Statement)) :
    Derives grammar [Nt.stmt] ts [.stmt stmt] s s n := by
  cases h with
  | message name parentName number hnumber hblock =>
      exact derives_rule 4 rfl rfl
        (message_derives name parentName hnumber hblock s) rfl
  | struct name parentName hblock =>
      exact derives_rule 5 rfl rfl (struct_derives name parentName hblock s) rfl
  | enum name hblock =>
      exact derives_rule 7 rfl rfl (enum_derives name hblock s) rfl
  | typedef hdecl =>
      have hchildren := derives_token .typedef (hdecl.derives s)
      exact derives_rule 6 rfl rfl (derives_rule 10 rfl rfl hchildren rfl) rfl
  | literal sLanguage sContext =>
      have hchildren :=
        derives_token (.language sLanguage) (derives_token (.literal sContext) (.nil s))
      exact derives_rule 8 rfl rfl (derives_rule 32 rfl rfl hchildren rfl) rfl
  | comment =>
      exact derives_rule 9 rfl rfl (derives_token .comment (.nil s)) rfl

/-- The statements of a file go to g_pRoot. -/
theorem stmtList_derives
    {list : List Statement}
    (h : ListTokens StmtTokens list ts n)
    (s : Option (List Statement)) :
    ∃ v, Derives grammar [Nt.stmtList] ts [v] s (some list) n := by
  induction h with
  | single hnode =>
      exact ⟨_, derives_rule 2 rfl rfl (hnode.derives s) rfl⟩
  | @snoc list stmt ts ts' m n hlist hnode ih =>
      obtain ⟨v, hlist⟩ := ih
      have hchildren := hlist.append (hnode.derives (some list))
      have hroom : max m (1 + n) = max m (n + 1) := by rw [Nat.add_comm]
      exact ⟨v, derives_of_eq (derives_rule 3 rfl rfl hchildren rfl) hroom⟩

end Derivations

section Meanings

variable {ts : List Terminal} {v : Value} {vs : List Value} {s s' : Option (List Statement)}
variable {n : Nat}

/-- What the tokens and the value of a symbol are, with g_pRoot in front of it and behind it. -/
def Means (symbol : Nat) (ts : List Terminal) (v : Value) (s s' : Option (List Statement))
    (n : Nat) : Prop :=
  if symbol < 39 then s' = s ∧ n = 1 ∧ ∃ t, kind t = symbol ∧ ts = [t] ∧ v = value t
  else if symbol = Nt.stmtList then ∃ list, s' = some list ∧ ListTokens StmtTokens list ts n
  else s' = s ∧
    if symbol = Nt.varType then ∃ type, v = .varType type ∧ VarTypeTokens type ts n
    else if symbol = Nt.varDecl then ∃ node, v = .varDecl node ∧ VarDeclTokens node ts n
    else if symbol = Nt.varDeclList then
      ∃ list, v = .varDecls list ∧ ListTokens VarDeclTokens list ts n
    else if symbol = Nt.enumDecl then ∃ node, v = .enumDecl node ∧ EnumDeclTokens node ts n
    else if symbol = Nt.enumDeclList then
      ∃ list, v = .enumDecls list ∧ ListTokens EnumDeclTokens list ts n
    else if symbol = Nt.userDefine ∨ symbol = Nt.varName then
      ∃ name, v = .varName name ∧ ts = [.varname name] ∧ n = 1
    else ∃ stmt, v = .stmt stmt ∧ StmtTokens stmt ts n

/-- What the tokens and the values of some symbols are. -/
inductive MeansAll : List Nat → List Terminal → List Value → Option (List Statement) →
    Option (List Statement) → Nat → Prop
  | nil (s : Option (List Statement)) : MeansAll [] [] [] s s 0
  | cons {x : Nat} {xs : List Nat} {ts ts' : List Terminal} {v : Value} {vs : List Value}
      {s s' s'' : Option (List Statement)} {m n : Nat}
      (hpos : 0 < m)
      (hx : Means x ts v s s' m)
      (hrest : MeansAll xs ts' vs s' s'' n) :
      MeansAll (x :: xs) (ts ++ ts') (v :: vs) s s'' (max m (n + 1))

/-- The tokens without a value, from their numbers. -/
def fixed (symbol : Nat) : Terminal :=
  [.message, .struct, .typedef, .enum, .comment, .openBrace, .closeBrace, .openBracket,
    .closeBracket, .less, .more, .equal, .colon, .semiColon, .comma, .openParenthesis,
    .closeParenthesis, .primitive .boolean, .primitive .byte, .primitive .ubyte,
    .primitive .int16, .primitive .int32, .primitive .int64, .primitive .uint16,
    .primitive .uint32, .primitive .uint64, .primitive .double, .primitive .float, .string,
    .array, .list, .map].getD (symbol - 7) .comment

def isFixed (symbol : Nat) : Bool :=
  6 < symbol && symbol < 39

/-- Most kinds have a single token. -/
theorem eq_fixed
    (t : Terminal)
    (h : 6 < kind t) :
    t = fixed (kind t) ∧ value t = .none := by
  cases t with
  | primitive type =>
      cases type <;> exact ⟨rfl, rfl⟩
  | varname name =>
      exact absurd h (show ¬ 6 < 3 by decide)
  | integer text =>
      exact absurd h (show ¬ 6 < 4 by decide)
  | literal context =>
      exact absurd h (show ¬ 6 < 5 by decide)
  | language text =>
      exact absurd h (show ¬ 6 < 6 by decide)
  | _ =>
      exact ⟨rfl, rfl⟩

theorem eq_varname
    {t : Terminal}
    (h : kind t = Tok.varname) :
    ∃ name, t = .varname name := by
  cases t with
  | varname name =>
      exact ⟨name, rfl⟩
  | primitive type =>
      cases type <;> cases h
  | _ =>
      cases h

theorem eq_integer
    {t : Terminal}
    (h : kind t = Tok.integer) :
    ∃ text, t = .integer text := by
  cases t with
  | integer text =>
      exact ⟨text, rfl⟩
  | primitive type =>
      cases type <;> cases h
  | _ =>
      cases h

theorem eq_literal
    {t : Terminal}
    (h : kind t = Tok.literal) :
    ∃ context, t = .literal context := by
  cases t with
  | literal context =>
      exact ⟨context, rfl⟩
  | primitive type =>
      cases type <;> cases h
  | _ =>
      cases h

theorem eq_language
    {t : Terminal}
    (h : kind t = Tok.language) :
    ∃ text, t = .language text := by
  cases t with
  | language text =>
      exact ⟨text, rfl⟩
  | primitive type =>
      cases type <;> cases h
  | _ =>
      cases h

/-- A token without a value comes next. -/
theorem MeansAll.fixed
    {x : Nat} {xs : List Nat}
    (h : MeansAll (x :: xs) ts vs s s' n)
    (hx : isFixed x = true) :
    ∃ ts' vs' n', ts = Parser.fixed x :: ts' ∧ vs = .none :: vs' ∧ n = n' + 1 ∧
      MeansAll xs ts' vs' s s' n' := by
  cases h with
  | @cons _ _ _ ts' _ vs' _ _ _ _ n' hpos hmeans hrest =>
      rw [isFixed, Bool.and_eq_true, decide_eq_true_eq, decide_eq_true_eq] at hx
      rw [Means, if_pos hx.2] at hmeans
      obtain ⟨rfl, rfl, t, rfl, rfl, rfl⟩ := hmeans
      obtain ⟨ht, hv⟩ := eq_fixed t hx.1
      refine ⟨ts', vs', n', ?_, ?_, ?_, hrest⟩
      · rw [← ht]
        rfl
      · rw [hv]
      · omega

theorem MeansAll.integer
    {xs : List Nat}
    (h : MeansAll (Tok.integer :: xs) ts vs s s' n) :
    ∃ number ts' vs' n', ts = .integer number :: ts' ∧ vs = .str number :: vs' ∧ n = n' + 1 ∧
      MeansAll xs ts' vs' s s' n' := by
  cases h with
  | @cons _ _ _ ts' _ vs' _ _ _ _ n' hpos hmeans hrest =>
      obtain ⟨rfl, rfl, t, ht, rfl, rfl⟩ := hmeans
      obtain ⟨number, rfl⟩ := eq_integer ht
      exact ⟨number, ts', vs', n', rfl, rfl, by omega, hrest⟩

theorem MeansAll.empty
    (h : MeansAll [] ts vs s s' n) :
    ts = [] ∧ vs = [] ∧ s' = s ∧ n = 0 := by
  cases h with
  | nil s =>
      exact ⟨rfl, rfl, rfl, rfl⟩

/-- A name comes next. -/
theorem MeansAll.varName
    {xs : List Nat}
    (h : MeansAll (Nt.varName :: xs) ts vs s s' n) :
    ∃ name ts' vs' n', ts = .varname name :: ts' ∧ vs = .varName name :: vs' ∧ n = n' + 1 ∧
      MeansAll xs ts' vs' s s' n' := by
  cases h with
  | @cons _ _ _ ts' _ vs' _ _ _ _ n' hpos hmeans hrest =>
      obtain ⟨rfl, name, rfl, rfl, rfl⟩ := hmeans
      exact ⟨name, ts', vs', n', rfl, rfl, by omega, hrest⟩

/-- One symbol is all that there is. -/
theorem MeansAll.single
    {x : Nat}
    (h : MeansAll [x] ts vs s s' n) :
    ∃ v, vs = [v] ∧ Means x ts v s s' n := by
  cases h with
  | @cons _ _ ts₁ _ v _ _ _ _ m _ hpos hmeans hrest =>
      obtain ⟨rfl, rfl, rfl, rfl⟩ := hrest.empty
      have hroom : max m (0 + 1) = m := by omega
      rw [List.append_nil, hroom]
      exact ⟨v, rfl, hmeans⟩

/-- The braces around a list of declarations, and the semicolon. -/
theorem MeansAll.block
    {α : Type} {R : α → List Terminal → Nat → Prop} {symbol : Nat} {nodes : List α → Value}
    (h : MeansAll [Tok.openBrace, symbol, Tok.closeBrace, Tok.semiColon] ts vs s s' n)
    (hsymbol : ∀ ts v s s' n, Means symbol ts v s s' n →
      s' = s ∧ ∃ list, v = nodes list ∧ ListTokens R list ts n) :
    ∃ list, vs = [.none, nodes list, .none, .none] ∧ s' = s ∧ BlockTokens R list ts n := by
  obtain ⟨ts₁, vs₁, n₁, rfl, rfl, rfl, h₁⟩ := h.fixed rfl
  cases h₁ with
  | cons hpos hmeans hrest =>
      obtain ⟨rfl, list, rfl, hlist⟩ := hsymbol _ _ _ _ _ hmeans
      obtain ⟨ts₂, vs₂, n₂, rfl, rfl, rfl, h₂⟩ := hrest.fixed rfl
      obtain ⟨ts₃, vs₃, n₃, rfl, rfl, rfl, h₃⟩ := h₂.fixed rfl
      obtain ⟨rfl, rfl, rfl, rfl⟩ := h₃.empty
      exact ⟨list, rfl, rfl, .list hlist⟩

theorem MeansAll.varDeclBlock
    (h : MeansAll [Tok.openBrace, Nt.varDeclList, Tok.closeBrace, Tok.semiColon] ts vs s s' n) :
    ∃ list, vs = [.none, .varDecls list, .none, .none] ∧ s' = s ∧
      BlockTokens VarDeclTokens list ts n :=
  h.block fun _ _ _ _ _ hmeans => hmeans

theorem MeansAll.enumDeclBlock
    (h : MeansAll [Tok.openBrace, Nt.enumDeclList, Tok.closeBrace, Tok.semiColon] ts vs s s' n) :
    ∃ list, vs = [.none, .enumDecls list, .none, .none] ∧ s' = s ∧
      BlockTokens EnumDeclTokens list ts n :=
  h.block fun _ _ _ _ _ hmeans => hmeans

theorem MeansAll.emptyBlock
    {α : Type} (R : α → List Terminal → Nat → Prop)
    (h : MeansAll [Tok.openBrace, Tok.closeBrace, Tok.semiColon] ts vs s s' n) :
    vs = [.none, .none, .none] ∧ s' = s ∧ BlockTokens R [] ts n := by
  obtain ⟨ts₁, vs₁, n₁, rfl, rfl, rfl, h₁⟩ := h.fixed rfl
  obtain ⟨ts₂, vs₂, n₂, rfl, rfl, rfl, h₂⟩ := h₁.fixed rfl
  obtain ⟨ts₃, vs₃, n₃, rfl, rfl, rfl, h₃⟩ := h₂.fixed rfl
  obtain ⟨rfl, rfl, rfl, rfl⟩ := h₃.empty
  exact ⟨rfl, rfl, .empty⟩

/-- The name of a parent comes next. -/
theorem MeansAll.parent
    {xs : List Nat}
    (h : MeansAll (Tok.openParenthesis :: Nt.varName :: Tok.closeParenthesis :: xs) ts vs s s' n) :
    ∃ parentName ts' vs' n', ts = parentTokens (some parentName) ++ ts' ∧
      vs = .none :: .varName parentName :: .none :: vs' ∧ n = n' + 3 ∧
        MeansAll xs ts' vs' s s' n' := by
  obtain ⟨ts₁, vs₁, n₁, rfl, rfl, rfl, h₁⟩ := h.fixed rfl
  obtain ⟨parentName, ts₂, vs₂, n₂, rfl, rfl, rfl, h₂⟩ := h₁.varName
  obtain ⟨ts₃, vs₃, n₃, rfl, rfl, rfl, h₃⟩ := h₂.fixed rfl
  exact ⟨parentName, ts₃, vs₃, n₃, rfl, rfl, rfl, h₃⟩

/-- The number of a message comes next. -/
theorem MeansAll.number
    {xs : List Nat}
    (h : MeansAll (Tok.colon :: Tok.integer :: xs) ts vs s s' n) :
    ∃ number ts' vs' n', ts = .colon :: .integer number :: ts' ∧
      vs = .none :: .str number :: vs' ∧ n = n' + 2 ∧ MeansAll xs ts' vs' s s' n' := by
  obtain ⟨ts₁, vs₁, n₁, rfl, rfl, rfl, h₁⟩ := h.fixed rfl
  obtain ⟨number, ts₂, vs₂, n₂, rfl, rfl, rfl, h₂⟩ := h₁.integer
  exact ⟨number, ts₂, vs₂, n₂, rfl, rfl, rfl, h₂⟩

/-- A keyword and a name come next. -/
theorem MeansAll.named
    {x : Nat} {xs : List Nat}
    (h : MeansAll (x :: Nt.varName :: xs) ts vs s s' n)
    (hx : isFixed x = true) :
    ∃ name ts' vs' n', ts = Parser.fixed x :: .varname name :: ts' ∧
      vs = .none :: .varName name :: vs' ∧ n = n' + 2 ∧ MeansAll xs ts' vs' s s' n' := by
  obtain ⟨ts₁, vs₁, n₁, rfl, rfl, rfl, h₁⟩ := h.fixed hx
  obtain ⟨name, ts₂, vs₂, n₂, rfl, rfl, rfl, h₂⟩ := h₁.varName
  exact ⟨name, ts₂, vs₂, n₂, rfl, rfl, rfl, h₂⟩

/-- A container and the type of its elements come next. -/
theorem MeansAll.element
    {x : Nat} {xs : List Nat}
    (h : MeansAll (x :: Tok.less :: Nt.varType :: xs) ts vs s s' n)
    (hx : isFixed x = true) :
    ∃ type ts₁ ts' vs' m n', ts = Parser.fixed x :: .less :: (ts₁ ++ ts') ∧
      vs = .none :: .none :: .varType type :: vs' ∧ n = max m (n' + 1) + 2 ∧
        VarTypeTokens type ts₁ m ∧ MeansAll xs ts' vs' s s' n' := by
  obtain ⟨ts₁, vs₁, n₁, rfl, rfl, rfl, h₁⟩ := h.fixed hx
  obtain ⟨ts₂, vs₂, n₂, rfl, rfl, rfl, h₂⟩ := h₁.fixed rfl
  rcases h₂ with _ | ⟨hpos, ⟨rfl, type, rfl, htype⟩, h₃⟩
  exact ⟨type, _, _, _, _, _, rfl, rfl, rfl, htype, h₃⟩

/-- The action of a rule gives what the symbol on the left means, or a number is too large for
an int. -/
def Acts (yyn : Nat) (ts : List Terminal) (vs : List Value) (s s' : Option (List Statement))
    (n : Nat) : Prop :=
  (act yyn vs s' = none ∧ ∃ number, .integer number ∈ ts ∧ Literals.atoi number = none) ∨
    ∃ v s'', act yyn vs s' = some (v, s'') ∧ Means (rule yyn).lhs ts v s s'' n

/-- A rule whose action needs no number. -/
theorem acts_of_act
    {yyn : Nat}
    (hact : act yyn vs s = some (v, s))
    (hmeans : Means (rule yyn).lhs ts v s s n) :
    Acts yyn ts vs s s n :=
  Or.inr ⟨v, s, hact, hmeans⟩

/-- A rule for a message. Its action is a number short of a statement. -/
theorem message_acts
    {yyn : Nat} {name : VarName} {number : Text} {list : List VarDeclNode}
    (parentName : Option VarName)
    (hlhs : (rule yyn).lhs = Nt.message)
    (hbuild : build yyn vs = ((Literals.atoi number).bind fun nSeqNo =>
      some (.message name parentName nSeqNo list)).map .stmt)
    (hroot : root yyn vs s = some s)
    (hblock : BlockTokens VarDeclTokens list ts n) :
    Acts yyn (.message :: .varname name ::
      (parentTokens parentName ++ .colon :: .integer number :: ts)) vs s s
        (n + 4 + (parentTokens parentName).length) := by
  cases hnumber : Literals.atoi number with
  | none =>
      have hact : act yyn vs s = none := by rw [act, hbuild, hnumber]; rfl
      exact Or.inl ⟨hact, number, by simp, hnumber⟩
  | some nSeqNo =>
      have hact : act yyn vs s = some (.stmt (.message name parentName nSeqNo list), s) := by
        rw [act, hbuild, hroot, hnumber]
        rfl
      refine acts_of_act hact ?_
      rw [hlhs]
      exact ⟨rfl, _, rfl, .message name parentName number hnumber hblock⟩

theorem rule_message_acts
    {yyn : Nat}
    (hmem : yyn ∈ [11, 12, 13, 14])
    (h : MeansAll (rule yyn).rhs ts vs s s' n) :
    Acts yyn ts vs s s' n := by
  simp only [List.mem_cons, List.not_mem_nil, or_false] at hmem
  rcases hmem with rfl | rfl | rfl | rfl
  · obtain ⟨name, ts₁, vs₁, n₁, rfl, rfl, rfl, h₁⟩ := h.named rfl
    obtain ⟨number, ts₂, vs₂, n₂, rfl, rfl, rfl, h₂⟩ := h₁.number
    obtain ⟨list, rfl, rfl, hblock⟩ := h₂.varDeclBlock
    exact message_acts none rfl rfl rfl hblock
  · obtain ⟨name, ts₁, vs₁, n₁, rfl, rfl, rfl, h₁⟩ := h.named rfl
    obtain ⟨number, ts₂, vs₂, n₂, rfl, rfl, rfl, h₂⟩ := h₁.number
    obtain ⟨rfl, rfl, hblock⟩ := h₂.emptyBlock VarDeclTokens
    exact message_acts none rfl rfl rfl hblock
  · obtain ⟨name, ts₁, vs₁, n₁, rfl, rfl, rfl, h₁⟩ := h.named rfl
    obtain ⟨parentName, ts₂, vs₂, n₂, rfl, rfl, rfl, h₂⟩ := h₁.parent
    obtain ⟨number, ts₃, vs₃, n₃, rfl, rfl, rfl, h₃⟩ := h₂.number
    obtain ⟨list, rfl, rfl, hblock⟩ := h₃.varDeclBlock
    exact message_acts (some parentName) rfl rfl rfl hblock
  · obtain ⟨name, ts₁, vs₁, n₁, rfl, rfl, rfl, h₁⟩ := h.named rfl
    obtain ⟨parentName, ts₂, vs₂, n₂, rfl, rfl, rfl, h₂⟩ := h₁.parent
    obtain ⟨number, ts₃, vs₃, n₃, rfl, rfl, rfl, h₃⟩ := h₂.number
    obtain ⟨rfl, rfl, hblock⟩ := h₃.emptyBlock VarDeclTokens
    exact message_acts (some parentName) rfl rfl rfl hblock

theorem rule_struct_acts
    {yyn : Nat}
    (hmem : yyn ∈ [15, 16, 17, 18])
    (h : MeansAll (rule yyn).rhs ts vs s s' n) :
    Acts yyn ts vs s s' n := by
  simp only [List.mem_cons, List.not_mem_nil, or_false] at hmem
  rcases hmem with rfl | rfl | rfl | rfl
  · obtain ⟨name, ts₁, vs₁, n₁, rfl, rfl, rfl, h₁⟩ := h.named rfl
    obtain ⟨list, rfl, rfl, hblock⟩ := h₁.varDeclBlock
    exact acts_of_act rfl ⟨rfl, _, rfl, .struct name none hblock⟩
  · obtain ⟨name, ts₁, vs₁, n₁, rfl, rfl, rfl, h₁⟩ := h.named rfl
    obtain ⟨rfl, rfl, hblock⟩ := h₁.emptyBlock VarDeclTokens
    exact acts_of_act rfl ⟨rfl, _, rfl, .struct name none hblock⟩
  · obtain ⟨name, ts₁, vs₁, n₁, rfl, rfl, rfl, h₁⟩ := h.named rfl
    obtain ⟨parentName, ts₂, vs₂, n₂, rfl, rfl, rfl, h₂⟩ := h₁.parent
    obtain ⟨list, rfl, rfl, hblock⟩ := h₂.varDeclBlock
    exact acts_of_act rfl ⟨rfl, _, rfl, .struct name (some parentName) hblock⟩
  · obtain ⟨name, ts₁, vs₁, n₁, rfl, rfl, rfl, h₁⟩ := h.named rfl
    obtain ⟨parentName, ts₂, vs₂, n₂, rfl, rfl, rfl, h₂⟩ := h₁.parent
    obtain ⟨rfl, rfl, hblock⟩ := h₂.emptyBlock VarDeclTokens
    exact acts_of_act rfl ⟨rfl, _, rfl, .struct name (some parentName) hblock⟩

theorem rule_enum_acts
    {yyn : Nat}
    (hmem : yyn ∈ [19, 20])
    (h : MeansAll (rule yyn).rhs ts vs s s' n) :
    Acts yyn ts vs s s' n := by
  simp only [List.mem_cons, List.not_mem_nil, or_false] at hmem
  rcases hmem with rfl | rfl
  · obtain ⟨name, ts₁, vs₁, n₁, rfl, rfl, rfl, h₁⟩ := h.named rfl
    obtain ⟨rfl, rfl, hblock⟩ := h₁.emptyBlock EnumDeclTokens
    exact acts_of_act rfl ⟨rfl, _, rfl, .enum name hblock⟩
  · obtain ⟨name, ts₁, vs₁, n₁, rfl, rfl, rfl, h₁⟩ := h.named rfl
    obtain ⟨list, rfl, rfl, hblock⟩ := h₁.enumDeclBlock
    exact acts_of_act rfl ⟨rfl, _, rfl, .enum name hblock⟩

theorem rule_enumDecl_acts
    {yyn : Nat}
    (hmem : yyn ∈ [23, 24, 25, 26, 27])
    (h : MeansAll (rule yyn).rhs ts vs s s' n) :
    Acts yyn ts vs s s' n := by
  simp only [List.mem_cons, List.not_mem_nil, or_false] at hmem
  rcases hmem with rfl | rfl | rfl | rfl | rfl
  · obtain ⟨elmt, ts₁, vs₁, n₁, rfl, rfl, rfl, h₁⟩ := h.varName
    obtain ⟨ts₂, vs₂, n₂, rfl, rfl, rfl, h₂⟩ := h₁.fixed rfl
    obtain ⟨number, ts₃, vs₃, n₃, rfl, rfl, rfl, h₃⟩ := h₂.integer
    obtain ⟨rfl, rfl, rfl, rfl⟩ := h₃.empty
    exact acts_of_act rfl ⟨rfl, _, rfl, .number elmt number⟩
  · obtain ⟨elmt, ts₁, vs₁, n₁, rfl, rfl, rfl, h₁⟩ := h.varName
    obtain ⟨ts₂, vs₂, n₂, rfl, rfl, rfl, h₂⟩ := h₁.fixed rfl
    obtain ⟨number, ts₃, vs₃, n₃, rfl, rfl, rfl, h₃⟩ := h₂.integer
    obtain ⟨ts₄, vs₄, n₄, rfl, rfl, rfl, h₄⟩ := h₃.fixed rfl
    obtain ⟨rfl, rfl, rfl, rfl⟩ := h₄.empty
    exact acts_of_act rfl ⟨rfl, _, rfl, .numberComma elmt number⟩
  · obtain ⟨elmt, ts₁, vs₁, n₁, rfl, rfl, rfl, h₁⟩ := h.varName
    obtain ⟨rfl, rfl, rfl, rfl⟩ := h₁.empty
    exact acts_of_act rfl ⟨rfl, _, rfl, .plain elmt⟩
  · obtain ⟨elmt, ts₁, vs₁, n₁, rfl, rfl, rfl, h₁⟩ := h.varName
    obtain ⟨ts₂, vs₂, n₂, rfl, rfl, rfl, h₂⟩ := h₁.fixed rfl
    obtain ⟨rfl, rfl, rfl, rfl⟩ := h₂.empty
    exact acts_of_act rfl ⟨rfl, _, rfl, .plainComma elmt⟩
  · obtain ⟨ts₁, vs₁, n₁, rfl, rfl, rfl, h₁⟩ := h.fixed rfl
    obtain ⟨rfl, rfl, rfl, rfl⟩ := h₁.empty
    exact acts_of_act rfl ⟨rfl, _, rfl, .comment⟩

/-- The rules for lists. -/
theorem rule_list_acts
    {yyn : Nat}
    (hmem : yyn ∈ [2, 3, 21, 22, 28, 29])
    (h : MeansAll (rule yyn).rhs ts vs s s' n) :
    Acts yyn ts vs s s' n := by
  simp only [List.mem_cons, List.not_mem_nil, or_false] at hmem
  rcases hmem with rfl | rfl | rfl | rfl | rfl | rfl
  · obtain ⟨v, rfl, rfl, stmt, rfl, hstmt⟩ := h.single
    exact Or.inr ⟨_, _, rfl, [stmt], rfl, .single hstmt⟩
  · rcases h with _ | ⟨hpos, ⟨list, rfl, hlist⟩, h₁⟩
    obtain ⟨v, rfl, rfl, stmt, rfl, hstmt⟩ := h₁.single
    exact Or.inr ⟨_, _, rfl, list ++ [stmt], rfl, .snoc hlist hstmt⟩
  · obtain ⟨v, rfl, rfl, node, rfl, hnode⟩ := h.single
    exact acts_of_act rfl ⟨rfl, _, rfl, .single hnode⟩
  · rcases h with _ | ⟨hpos, ⟨rfl, list, rfl, hlist⟩, h₁⟩
    obtain ⟨v, rfl, rfl, node, rfl, hnode⟩ := h₁.single
    exact acts_of_act rfl ⟨rfl, _, rfl, .snoc hlist hnode⟩
  · obtain ⟨v, rfl, rfl, node, rfl, hnode⟩ := h.single
    exact acts_of_act rfl ⟨rfl, _, rfl, .single hnode⟩
  · rcases h with _ | ⟨hpos, ⟨rfl, list, rfl, hlist⟩, h₁⟩
    obtain ⟨v, rfl, rfl, node, rfl, hnode⟩ := h₁.single
    exact acts_of_act rfl ⟨rfl, _, rfl, .snoc hlist hnode⟩

/-- The rules of a statement keep it as it is. -/
theorem rule_stmt_acts
    {yyn : Nat}
    (hmem : yyn ∈ [4, 5, 6, 7, 8, 9, 10, 32])
    (h : MeansAll (rule yyn).rhs ts vs s s' n) :
    Acts yyn ts vs s s' n := by
  simp only [List.mem_cons, List.not_mem_nil, or_false] at hmem
  rcases hmem with rfl | rfl | rfl | rfl | rfl | rfl | rfl | rfl
  · obtain ⟨v, rfl, rfl, stmt, rfl, hstmt⟩ := h.single
    exact acts_of_act rfl ⟨rfl, stmt, rfl, hstmt⟩
  · obtain ⟨v, rfl, rfl, stmt, rfl, hstmt⟩ := h.single
    exact acts_of_act rfl ⟨rfl, stmt, rfl, hstmt⟩
  · obtain ⟨v, rfl, rfl, stmt, rfl, hstmt⟩ := h.single
    exact acts_of_act rfl ⟨rfl, stmt, rfl, hstmt⟩
  · obtain ⟨v, rfl, rfl, stmt, rfl, hstmt⟩ := h.single
    exact acts_of_act rfl ⟨rfl, stmt, rfl, hstmt⟩
  · obtain ⟨v, rfl, rfl, stmt, rfl, hstmt⟩ := h.single
    exact acts_of_act rfl ⟨rfl, stmt, rfl, hstmt⟩
  · obtain ⟨ts₁, vs₁, n₁, rfl, rfl, rfl, h₁⟩ := h.fixed rfl
    obtain ⟨rfl, rfl, rfl, rfl⟩ := h₁.empty
    exact acts_of_act rfl ⟨rfl, _, rfl, .comment⟩
  · obtain ⟨ts₁, vs₁, n₁, rfl, rfl, rfl, h₁⟩ := h.fixed rfl
    obtain ⟨v, rfl, rfl, varDecl, rfl, hdecl⟩ := h₁.single
    exact acts_of_act rfl ⟨rfl, _, rfl, .typedef hdecl⟩
  · rcases h with _ | ⟨hpos, ⟨rfl, rfl, t, ht, rfl, rfl⟩, h₁⟩
    obtain ⟨sLanguage, rfl⟩ := eq_language ht
    obtain ⟨v, rfl, rfl, rfl, t, ht, rfl, rfl⟩ := h₁.single
    obtain ⟨sContext, rfl⟩ := eq_literal ht
    exact acts_of_act rfl ⟨rfl, _, rfl, .literal sLanguage sContext⟩

theorem rule_varDecl_acts
    {yyn : Nat}
    (hmem : yyn ∈ [30, 31])
    (h : MeansAll (rule yyn).rhs ts vs s s' n) :
    Acts yyn ts vs s s' n := by
  simp only [List.mem_cons, List.not_mem_nil, or_false] at hmem
  rcases hmem with rfl | rfl
  · rcases h with _ | ⟨hpos, ⟨rfl, type, rfl, htype⟩, h₁⟩
    obtain ⟨varName, ts₂, vs₂, n₂, rfl, rfl, rfl, h₂⟩ := h₁.varName
    obtain ⟨ts₃, vs₃, n₃, rfl, rfl, rfl, h₃⟩ := h₂.fixed rfl
    obtain ⟨rfl, rfl, rfl, rfl⟩ := h₃.empty
    exact acts_of_act rfl ⟨rfl, _, rfl, .varDecl varName htype⟩
  · obtain ⟨ts₁, vs₁, n₁, rfl, rfl, rfl, h₁⟩ := h.fixed rfl
    obtain ⟨rfl, rfl, rfl, rfl⟩ := h₁.empty
    exact acts_of_act rfl ⟨rfl, _, rfl, .comment⟩

/-- The rules for the primitive types. -/
theorem rule_primitive_acts
    {type : PrimitiveType}
    (h : MeansAll (rule (primitiveRule type)).rhs ts vs s s' n) :
    Acts (primitiveRule type) ts vs s s' n := by
  have hrule : rule (primitiveRule type) = ⟨Nt.varType, [kind (.primitive type)]⟩ := by
    cases type <;> rfl
  rw [hrule] at h
  obtain ⟨v, rfl, hmeans⟩ := h.single
  rw [Means, if_pos (kind_lt _)] at hmeans
  obtain ⟨rfl, rfl, t, ht, rfl, rfl⟩ := hmeans
  have hkind : 6 < kind (.primitive type) := by
    cases type <;> exact Nat.le_of_ble_eq_true rfl
  have htoken : t = .primitive type := by
    rw [(eq_fixed t (ht ▸ hkind)).1, ht, ← (eq_fixed _ hkind).1]
  have hact : act (primitiveRule type) [value t] s' = some (.varType (.primitive type), s') := by
    rw [htoken]
    cases type <;> rfl
  refine acts_of_act hact ?_
  rw [hrule, htoken]
  exact ⟨rfl, _, rfl, .primitive type⟩

/-- The rules of a type. -/
theorem rule_varType_acts
    {yyn : Nat}
    (hmem : yyn ∈ [44, 45, 46, 47, 48, 49, 50, 51])
    (h : MeansAll (rule yyn).rhs ts vs s s' n) :
    Acts yyn ts vs s s' n := by
  simp only [List.mem_cons, List.not_mem_nil, or_false] at hmem
  rcases hmem with rfl | rfl | rfl | rfl | rfl | rfl | rfl | rfl
  · obtain ⟨ts₁, vs₁, n₁, rfl, rfl, rfl, h₁⟩ := h.fixed rfl
    obtain ⟨rfl, rfl, rfl, rfl⟩ := h₁.empty
    exact acts_of_act rfl ⟨rfl, _, rfl, .string⟩
  · obtain ⟨elmtType, _, ts₃, vs₃, _, n₃, rfl, rfl, rfl, helmt, h₃⟩ :=
      h.element rfl
    obtain ⟨ts₄, vs₄, n₄, rfl, rfl, rfl, h₄⟩ := h₃.fixed rfl
    obtain ⟨rfl, rfl, rfl, rfl⟩ := h₄.empty
    exact acts_of_act rfl ⟨rfl, _, rfl, .array helmt⟩
  · obtain ⟨elmtType, _, ts₃, vs₃, _, n₃, rfl, rfl, rfl, helmt, h₃⟩ :=
      h.element rfl
    obtain ⟨ts₄, vs₄, n₄, rfl, rfl, rfl, h₄⟩ := h₃.fixed rfl
    obtain ⟨elmtCount, ts₅, vs₅, n₅, rfl, rfl, rfl, h₅⟩ := h₄.integer
    obtain ⟨ts₆, vs₆, n₆, rfl, rfl, rfl, h₆⟩ := h₅.fixed rfl
    obtain ⟨rfl, rfl, rfl, rfl⟩ := h₆.empty
    exact acts_of_act rfl ⟨rfl, _, rfl, .staticArray elmtCount helmt⟩
  · obtain ⟨elmtType, _, ts₃, vs₃, _, n₃, rfl, rfl, rfl, helmt, h₃⟩ :=
      h.element rfl
    obtain ⟨ts₄, vs₄, n₄, rfl, rfl, rfl, h₄⟩ := h₃.fixed rfl
    obtain ⟨rfl, rfl, rfl, rfl⟩ := h₄.empty
    exact acts_of_act rfl ⟨rfl, _, rfl, .list helmt⟩
  · obtain ⟨keyType, _, ts₃, vs₃, _, n₃, rfl, rfl, rfl, hkey, h₃⟩ :=
      h.element rfl
    obtain ⟨ts₄, vs₄, n₄, rfl, rfl, rfl, h₄⟩ := h₃.fixed rfl
    rcases h₄ with _ | ⟨hpos', ⟨rfl, elmtType, rfl, helmt⟩, h₅⟩
    obtain ⟨ts₆, vs₆, n₆, rfl, rfl, rfl, h₆⟩ := h₅.fixed rfl
    obtain ⟨rfl, rfl, rfl, rfl⟩ := h₆.empty
    exact acts_of_act rfl ⟨rfl, _, rfl, .map hkey helmt⟩
  · obtain ⟨v, rfl, rfl, name, rfl, rfl, rfl⟩ := h.single
    exact acts_of_act rfl ⟨rfl, _, rfl, .userDefine name⟩
  · obtain ⟨v, rfl, rfl, rfl, t, ht, rfl, rfl⟩ := h.single
    obtain ⟨name, rfl⟩ := eq_varname ht
    exact acts_of_act rfl ⟨rfl, name, rfl, rfl, rfl⟩
  · obtain ⟨v, rfl, rfl, rfl, t, ht, rfl, rfl⟩ := h.single
    obtain ⟨name, rfl⟩ := eq_varname ht
    exact acts_of_act rfl ⟨rfl, name, rfl, rfl, rfl⟩

/-- The rules in the groups above. -/
theorem rule_groups :
    ∀ yyn ∈ List.range' 2 50,
      yyn ∈ [2, 3, 21, 22, 28, 29] ∨ yyn ∈ [4, 5, 6, 7, 8, 9, 10, 32] ∨
        yyn ∈ [11, 12, 13, 14] ∨ yyn ∈ [15, 16, 17, 18] ∨ yyn ∈ [19, 20] ∨
        yyn ∈ [23, 24, 25, 26, 27] ∨ yyn ∈ [30, 31] ∨ yyn ∈ primitives.map primitiveRule ∨
        yyn ∈ [44, 45, 46, 47, 48, 49, 50, 51] := by
  decide +kernel

/-- Every rule of parser.y acts as the meaning of its right side says. -/
theorem rule_acts
    {yyn : Nat}
    (hmem : yyn ∈ grammar.numbers)
    (h : MeansAll (rule yyn).rhs ts vs s s' n) :
    Acts yyn ts vs s s' n := by
  rcases rule_groups yyn hmem with hg | hg | hg | hg | hg | hg | hg | hg | hg
  · exact rule_list_acts hg h
  · exact rule_stmt_acts hg h
  · exact rule_message_acts hg h
  · exact rule_struct_acts hg h
  · exact rule_enum_acts hg h
  · exact rule_enumDecl_acts hg h
  · exact rule_varDecl_acts hg h
  · obtain ⟨type, -, rfl⟩ := List.mem_map.mp hg
    exact rule_primitive_acts h
  · exact rule_varType_acts hg h

/-- What is derived from some symbols is what they mean. -/
theorem meansAll_of_derives
    {xs : List Nat}
    (h : Derives grammar xs ts vs s s' n) :
    MeansAll xs ts vs s s' n := by
  induction h with
  | nil s =>
      exact .nil s
  | @terminal rest ts vs s s' n t hrest ih =>
      have hmeans : Means (kind t) [t] (value t) s s 1 := by
        rw [Means, if_pos (kind_lt t)]
        exact ⟨rfl, rfl, t, rfl, rfl, rfl⟩
      have hroom : max 1 (n + 1) = n + 1 := by omega
      exact hroom ▸ .cons Nat.one_pos hmeans ih
  | rule yyn hmem hchildren hact hrest ihchildren ih =>
      have hpos := List.length_pos_iff.mpr (sound.nonempty yyn hmem)
      have hlength := hchildren.length_le
      rcases rule_acts hmem ihchildren with ⟨hnone, -⟩ | ⟨v, s'', hsome, hmeans⟩
      · rw [show act yyn _ _ = _ from hact] at hnone
        cases hnone
      · rw [show act yyn _ _ = _ from hact] at hsome
        cases hsome
        exact .cons (by omega) hmeans ih

end Meanings

section Files

variable {tokens : List Terminal} {list : List Statement}

/-- What the parser accepts is a list of statements, and all of them go to g_pRoot. -/
theorem yyparse_iff
    (tokens : List Terminal) (g_pRoot : Option (List Statement)) :
    yyparse tokens = some (.accepted g_pRoot) ↔
      ∃ list n, g_pRoot = some list ∧ ListTokens StmtTokens list tokens n ∧ n + 1 < 10000 := by
  rw [yyparse_accepted_iff]
  constructor
  · rintro ⟨yyvs, n, hderives, hdepth⟩
    obtain ⟨v, -, list, rfl, hlist⟩ := (meansAll_of_derives hderives).single
    exact ⟨list, n, rfl, hlist, hdepth⟩
  · rintro ⟨list, n, rfl, hlist, hdepth⟩
    obtain ⟨v, hderives⟩ := stmtList_derives hlist none
    exact ⟨[v], n, hderives, hdepth⟩

/-- A list of tokens is written for one list of statements at most. -/
theorem stmtList_unique
    {tokens : List Terminal} {list list' : List Statement} {n n' : Nat}
    (h : ListTokens StmtTokens list tokens n)
    (h' : ListTokens StmtTokens list' tokens n') :
    list = list' := by
  obtain ⟨v, hderives⟩ := stmtList_derives h none
  obtain ⟨v', hderives'⟩ := stmtList_derives h' none
  exact Option.some.inj (ShiftReduce.Derives.unique sound complete hderives hderives')

/-- struct A { int32 x; list<string> y; }; enum E { B = 7, C }; -/
theorem stmtList_unique_struct :
    [Statement.message ⟨['A'], rfl⟩ none (-1) [.varDecl ⟨.primitive .int32, ⟨['x'], rfl⟩⟩,
        .varDecl ⟨.list .string, ⟨['y'], rfl⟩⟩],
      Statement.enum ⟨['E'], rfl⟩ [.enumElmt ⟨['B'], rfl⟩ ['7'], .enumElmt ⟨['C'], rfl⟩ []]] =
    [Statement.message ⟨['A'], rfl⟩ none (-1) [.varDecl ⟨.primitive .int32, ⟨['x'], rfl⟩⟩,
        .varDecl ⟨.list .string, ⟨['y'], rfl⟩⟩],
      Statement.enum ⟨['E'], rfl⟩ [.enumElmt ⟨['B'], rfl⟩ ['7'], .enumElmt ⟨['C'], rfl⟩ []]] := by
  have hstruct := StmtTokens.struct ⟨['A'], rfl⟩ none (.list (.snoc
    (.single (.varDecl ⟨['x'], rfl⟩ (.primitive .int32))) (.varDecl ⟨['y'], rfl⟩ (.list .string))))
  have henum := StmtTokens.enum ⟨['E'], rfl⟩ (.list (.snoc
    (.single (.numberComma ⟨['B'], rfl⟩ ['7'])) (.plain ⟨['C'], rfl⟩)))
  exact stmtList_unique (.snoc (.single hstruct) henum) (.snoc (.single hstruct) henum)

/-- An action is undefined for a number only that is too large for an int. -/
theorem yyparse_overflow
    (h : yyparse tokens = some .undefined) :
    ∃ number, .integer number ∈ tokens ∧ Literals.atoi number = none := by
  obtain ⟨yyn, hmem, ts, yyvs, s, s', n, hinfix, hderives, hnone⟩ := yyparse_undefined h
  rcases rule_acts hmem (meansAll_of_derives hderives) with ⟨-, number, hnumber, hatoi⟩ |
    ⟨v, s'', hsome, -⟩
  · exact ⟨number, hinfix.subset hnumber, hatoi⟩
  · rw [hnone] at hsome
    cases hsome

/-- How MakeParseTree ends: it returns g_pRoot, yyerror ends the program, or the value of atoi
is undefined. -/
inductive Outcome
  | returned (g_pRoot : Option (List Statement))
  | exited
  | undefined

def outcome : Result (Option (List Statement)) → Outcome
  | .accepted g_pRoot => .returned g_pRoot
  | .syntaxError => .exited
  | .exhausted => .exited
  | .undefined => .undefined

/-- MakeParseTree, for a file with this text. -/
def makeParseTree (text : Text) : Option Outcome :=
  (yyparse (Lexer.lex text)).map outcome

/-- makeParseTree returns if the parser accepts the tokens. -/
theorem makeParseTree_returned
    (text : Text) (g_pRoot : Option (List Statement)) :
    makeParseTree text = some (.returned g_pRoot) ↔
      yyparse (Lexer.lex text) = some (.accepted g_pRoot) := by
  rw [makeParseTree, Option.map_eq_some_iff]
  constructor
  · rintro ⟨result, hresult, hreturned⟩
    cases result with
    | accepted root =>
        cases hreturned
        exact hresult
    | _ =>
        cases hreturned
  · exact fun haccepted => ⟨_, haccepted, rfl⟩

/-- MakeParseTree returns the statements that the file is written for. -/
theorem makeParseTree_iff
    (text : Text) (g_pRoot : Option (List Statement)) :
    makeParseTree text = some (.returned g_pRoot) ↔
      ∃ list tokens n, g_pRoot = some list ∧ Lexer.Renders tokens text ∧
        ListTokens StmtTokens list tokens n ∧ n + 1 < 10000 := by
  rw [makeParseTree_returned, yyparse_iff]
  constructor
  · rintro ⟨list, n, hroot, hlist, hdepth⟩
    exact ⟨list, Lexer.lex text, n, hroot, Lexer.renders_lex text, hlist, hdepth⟩
  · rintro ⟨list, tokens, n, hroot, hrenders, hlist, hdepth⟩
    rw [Lexer.lex_of_renders hrenders]
    exact ⟨list, n, hroot, hlist, hdepth⟩

/-- A file within bounds ends the program exactly if it is written for no statements. -/
theorem makeParseTree_exited_iff
    {text : Text} {tokens : List Terminal}
    (hrenders : Lexer.Renders tokens text)
    (hlength : tokens.length + 2 < 10000)
    (hnumbers : ∀ number, .integer number ∈ tokens → Literals.atoi number ≠ none) :
    makeParseTree text = some .exited ↔ ∀ list n, ¬ ListTokens StmtTokens list tokens n := by
  rw [makeParseTree, Lexer.lex_of_renders hrenders]
  obtain ⟨result, hresult⟩ := yyparse_ends tokens
  rw [hresult, Option.map_some]
  cases result with
  | accepted g_pRoot =>
      obtain ⟨list, n, -, hlist, -⟩ := (yyparse_iff tokens g_pRoot).mp hresult
      constructor
      · intro h
        cases h
      · exact fun h => absurd hlist (h list n)
  | syntaxError =>
      refine ⟨fun _ list n hlist => ?_, fun _ => rfl⟩
      have hroom : n + 1 < 10000 := by
        obtain ⟨v, hderives⟩ := stmtList_derives hlist none
        have hdepth := hderives.depth_le sound.nonempty
        omega
      have haccepted := (yyparse_iff tokens _).mpr ⟨list, n, rfl, hlist, hroom⟩
      rw [hresult] at haccepted
      cases haccepted
  | exhausted =>
      have hlong := yyparse_exhausted hresult
      omega
  | undefined =>
      obtain ⟨number, hnumber, hatoi⟩ := yyparse_overflow hresult
      exact absurd hatoi (hnumbers number hnumber)

/-- The semicolon behind the last field is missing. -/
theorem makeParseTree_exited_semicolon :
    makeParseTree "struct A { int32 x; array<int32, 7> y }".toList = some .exited ↔
      ∀ list n, ¬ ListTokens StmtTokens list
        [.struct, .varname ⟨['A'], rfl⟩, .openBrace, .primitive .int32, .varname ⟨['x'], rfl⟩,
          .semiColon, .array, .less, .primitive .int32, .comma, .integer ['7'], .more,
          .varname ⟨['y'], rfl⟩, .closeBrace] n := by
  have hlex : Lexer.lex "struct A { int32 x; array<int32, 7> y }".toList =
        [.struct, .varname ⟨['A'], rfl⟩, .openBrace, .primitive .int32, .varname ⟨['x'], rfl⟩,
          .semiColon, .array, .less, .primitive .int32, .comma, .integer ['7'], .more,
          .varname ⟨['y'], rfl⟩, .closeBrace] := by
    rfl
  refine makeParseTree_exited_iff (hlex ▸ Lexer.renders_lex _) (by decide) ?_
  intro number hmem
  have hseven : number = ['7'] := by
    simpa using hmem
  subst hseven
  decide
example :
    makeParseTree "struct A { int32 x; };".toList =
      some (.returned (some [.message ⟨['A'], rfl⟩ none (-1)
        [.varDecl ⟨.primitive .int32, ⟨['x'], rfl⟩⟩]])) := by
  rfl

end Files

end Parser
end Idlc
end Gamnet
