import Gamnet.Idlc.Downcasts
import Gamnet.Idlc.Lexer
import Gamnet.Idlc.Literals
import Gamnet.Lib.ShiftReduce

/-!
# The parser

The parser that bison makes of parser.y, with its tables from parser.cpp: in each state it
shifts the next token or reduces a rule, and the actions of the rules build the nodes.

Which rules each state is in the middle of is written down in `kernel`. With it the tables are
checked (`sound`, `complete`): the parser accepts what the rules of parser.y derive, and
nothing else.
-/

namespace Gamnet
namespace Idlc
namespace Parser

open Emission (Text TypeExpr VarName VarDecl)
open Downcasts (VarDeclNode EnumDeclNode)
open ShiftReduce (Rule Action Grammar Tables Item Certificate Result)

/-- The nodes that stmt is made of, with all that they store. A struct is a message without a
number. -/
inductive Statement
  | message (name : VarName) (parentName : Option VarName) (nSeqNo : Int)
      (list : List VarDeclNode)
  | typedef (varDecl : VarDeclNode)
  | enum (name : VarName) (list : List EnumDeclNode)
  | literal (sLanguage sContext : Text)
  | comment

/-- The semantic values: texts of tokens, and nodes. Most tokens have none. -/
inductive Value
  | none
  | str (text : Text)
  | varName (name : VarName)
  | varType (type : TypeExpr)
  | varDecl (node : VarDeclNode)
  | varDecls (list : List VarDeclNode)
  | enumDecl (node : EnumDeclNode)
  | enumDecls (list : List EnumDeclNode)
  | stmt (stmt : Statement)


namespace Tok

/-! The numbers of the tokens. -/

abbrev eof : Nat := 0
abbrev varname : Nat := 3
abbrev integer : Nat := 4
abbrev literal : Nat := 5
abbrev language : Nat := 6
abbrev message : Nat := 7
abbrev struct : Nat := 8
abbrev typedef : Nat := 9
abbrev enum : Nat := 10
abbrev comment : Nat := 11
abbrev openBrace : Nat := 12
abbrev closeBrace : Nat := 13
abbrev openBracket : Nat := 14
abbrev closeBracket : Nat := 15
abbrev less : Nat := 16
abbrev more : Nat := 17
abbrev equal : Nat := 18
abbrev colon : Nat := 19
abbrev semiColon : Nat := 20
abbrev comma : Nat := 21
abbrev openParenthesis : Nat := 22
abbrev closeParenthesis : Nat := 23
abbrev boolean : Nat := 24
abbrev byte : Nat := 25
abbrev ubyte : Nat := 26
abbrev int16 : Nat := 27
abbrev int32 : Nat := 28
abbrev int64 : Nat := 29
abbrev uint16 : Nat := 30
abbrev uint32 : Nat := 31
abbrev uint64 : Nat := 32
abbrev double : Nat := 33
abbrev float : Nat := 34
abbrev string : Nat := 35
abbrev array : Nat := 36
abbrev list : Nat := 37
abbrev map : Nat := 38

end Tok

namespace Nt

/-! The numbers of the other symbols. -/

abbrev accept : Nat := 39
abbrev stmtList : Nat := 40
abbrev stmt : Nat := 41
abbrev typedef : Nat := 42
abbrev message : Nat := 43
abbrev struct : Nat := 44
abbrev enum : Nat := 45
abbrev enumDeclList : Nat := 46
abbrev enumDecl : Nat := 47
abbrev varDeclList : Nat := 48
abbrev varDecl : Nat := 49
abbrev literal : Nat := 50
abbrev varType : Nat := 51
abbrev userDefine : Nat := 52
abbrev varName : Nat := 53

end Nt

/-- The number of a token. -/
def kind : Terminal → Nat
  | .varname _ => Tok.varname
  | .integer _ => Tok.integer
  | .literal _ => Tok.literal
  | .language _ => Tok.language
  | .message => Tok.message
  | .struct => Tok.struct
  | .typedef => Tok.typedef
  | .enum => Tok.enum
  | .comment => Tok.comment
  | .openBrace => Tok.openBrace
  | .closeBrace => Tok.closeBrace
  | .openBracket => Tok.openBracket
  | .closeBracket => Tok.closeBracket
  | .less => Tok.less
  | .more => Tok.more
  | .equal => Tok.equal
  | .colon => Tok.colon
  | .semiColon => Tok.semiColon
  | .comma => Tok.comma
  | .openParenthesis => Tok.openParenthesis
  | .closeParenthesis => Tok.closeParenthesis
  | .primitive .boolean => Tok.boolean
  | .primitive .byte => Tok.byte
  | .primitive .ubyte => Tok.ubyte
  | .primitive .int16 => Tok.int16
  | .primitive .int32 => Tok.int32
  | .primitive .int64 => Tok.int64
  | .primitive .uint16 => Tok.uint16
  | .primitive .uint32 => Tok.uint32
  | .primitive .uint64 => Tok.uint64
  | .primitive .double => Tok.double
  | .primitive .float => Tok.float
  | .string => Tok.string
  | .array => Tok.array
  | .list => Tok.list
  | .map => Tok.map

/-- yylval of a token. The lexer sets it for texts only. -/
def value : Terminal → Value
  | .varname name => .varName name
  | .integer text => .str text
  | .literal context => .str context
  | .language text => .str text
  | _ => .none

/-- The rules of parser.y, with their numbers. -/
def rules : List Rule :=
  [⟨0, []⟩,
    ⟨Nt.accept, [Nt.stmtList, Tok.eof]⟩,
    ⟨Nt.stmtList, [Nt.stmt]⟩,
    ⟨Nt.stmtList, [Nt.stmtList, Nt.stmt]⟩,
    ⟨Nt.stmt, [Nt.message]⟩,
    ⟨Nt.stmt, [Nt.struct]⟩,
    ⟨Nt.stmt, [Nt.typedef]⟩,
    ⟨Nt.stmt, [Nt.enum]⟩,
    ⟨Nt.stmt, [Nt.literal]⟩,
    ⟨Nt.stmt, [Tok.comment]⟩,
    ⟨Nt.typedef, [Tok.typedef, Nt.varDecl]⟩,
    ⟨Nt.message, [Tok.message, Nt.varName, Tok.colon, Tok.integer, Tok.openBrace,
      Nt.varDeclList, Tok.closeBrace, Tok.semiColon]⟩,
    ⟨Nt.message, [Tok.message, Nt.varName, Tok.colon, Tok.integer, Tok.openBrace,
      Tok.closeBrace, Tok.semiColon]⟩,
    ⟨Nt.message, [Tok.message, Nt.varName, Tok.openParenthesis, Nt.varName,
      Tok.closeParenthesis, Tok.colon, Tok.integer, Tok.openBrace, Nt.varDeclList,
      Tok.closeBrace, Tok.semiColon]⟩,
    ⟨Nt.message, [Tok.message, Nt.varName, Tok.openParenthesis, Nt.varName,
      Tok.closeParenthesis, Tok.colon, Tok.integer, Tok.openBrace, Tok.closeBrace, Tok.semiColon]⟩,
    ⟨Nt.struct, [Tok.struct, Nt.varName, Tok.openBrace, Nt.varDeclList, Tok.closeBrace,
      Tok.semiColon]⟩,
    ⟨Nt.struct, [Tok.struct, Nt.varName, Tok.openBrace, Tok.closeBrace, Tok.semiColon]⟩,
    ⟨Nt.struct, [Tok.struct, Nt.varName, Tok.openParenthesis, Nt.varName, Tok.closeParenthesis,
      Tok.openBrace, Nt.varDeclList, Tok.closeBrace, Tok.semiColon]⟩,
    ⟨Nt.struct, [Tok.struct, Nt.varName, Tok.openParenthesis, Nt.varName, Tok.closeParenthesis,
      Tok.openBrace, Tok.closeBrace, Tok.semiColon]⟩,
    ⟨Nt.enum, [Tok.enum, Nt.varName, Tok.openBrace, Tok.closeBrace, Tok.semiColon]⟩,
    ⟨Nt.enum, [Tok.enum, Nt.varName, Tok.openBrace, Nt.enumDeclList, Tok.closeBrace,
      Tok.semiColon]⟩,
    ⟨Nt.enumDeclList, [Nt.enumDecl]⟩,
    ⟨Nt.enumDeclList, [Nt.enumDeclList, Nt.enumDecl]⟩,
    ⟨Nt.enumDecl, [Nt.varName, Tok.equal, Tok.integer]⟩,
    ⟨Nt.enumDecl, [Nt.varName, Tok.equal, Tok.integer, Tok.comma]⟩,
    ⟨Nt.enumDecl, [Nt.varName]⟩,
    ⟨Nt.enumDecl, [Nt.varName, Tok.comma]⟩,
    ⟨Nt.enumDecl, [Tok.comment]⟩,
    ⟨Nt.varDeclList, [Nt.varDecl]⟩,
    ⟨Nt.varDeclList, [Nt.varDeclList, Nt.varDecl]⟩,
    ⟨Nt.varDecl, [Nt.varType, Nt.varName, Tok.semiColon]⟩,
    ⟨Nt.varDecl, [Tok.comment]⟩,
    ⟨Nt.literal, [Tok.language, Tok.literal]⟩,
    ⟨Nt.varType, [Tok.boolean]⟩,
    ⟨Nt.varType, [Tok.byte]⟩,
    ⟨Nt.varType, [Tok.ubyte]⟩,
    ⟨Nt.varType, [Tok.int16]⟩,
    ⟨Nt.varType, [Tok.int32]⟩,
    ⟨Nt.varType, [Tok.int64]⟩,
    ⟨Nt.varType, [Tok.uint16]⟩,
    ⟨Nt.varType, [Tok.uint32]⟩,
    ⟨Nt.varType, [Tok.uint64]⟩,
    ⟨Nt.varType, [Tok.double]⟩,
    ⟨Nt.varType, [Tok.float]⟩,
    ⟨Nt.varType, [Tok.string]⟩,
    ⟨Nt.varType, [Tok.array, Tok.less, Nt.varType, Tok.more]⟩,
    ⟨Nt.varType, [Tok.array, Tok.less, Nt.varType, Tok.comma, Tok.integer, Tok.more]⟩,
    ⟨Nt.varType, [Tok.list, Tok.less, Nt.varType, Tok.more]⟩,
    ⟨Nt.varType, [Tok.map, Tok.less, Nt.varType, Tok.comma, Nt.varType, Tok.more]⟩,
    ⟨Nt.varType, [Nt.userDefine]⟩,
    ⟨Nt.userDefine, [Tok.varname]⟩,
    ⟨Nt.varName, [Tok.varname]⟩]

/-- The index in yytable of the part for a state, or -63. -/
def yypact : List (List Int) :=
  [[59, 5, 22, 22, 327, 22, -63, 8, -63, -63],
    [-63, -63, -63, -63, -63, -63, -10, 20, -63, -63],
    [-63, -63, -63, -63, -63, -63, -63, -63, -63, -63],
    [-63, -63, -5, 15, 29, -63, 22, -63, 14, -63],
    [-63, 34, 22, 26, 22, 342, 342, 342, 13, 10],
    [35, 25, 51, 75, -63, 49, 23, 56, 53, -63],
    [-63, 55, 17, -63, 6, 111, 27, -63, 60, -63],
    [64, -63, 77, -63, 342, -63, 62, -63, 79, -63],
    [65, 147, 80, -63, 183, 70, 73, -63, 58, -63],
    [71, 81, 72, 219, -63, -63, -63, -63, 255, -63],
    [74, 76, 291, -63, -63, 95, -63]]

/-- The rule that a state reduces by default. 0 is an error. -/
def yydefact : List (List Nat) :=
  [[0, 0, 0, 0, 0, 0, 9, 0, 2, 6],
    [4, 5, 7, 8, 32, 51, 0, 0, 50, 31],
    [33, 34, 35, 36, 37, 38, 39, 40, 41, 42],
    [43, 44, 0, 0, 0, 10, 0, 49, 0, 1],
    [3, 0, 0, 0, 0, 0, 0, 0, 0, 0],
    [0, 0, 0, 0, 28, 0, 0, 0, 0, 30],
    [27, 0, 0, 21, 25, 0, 0, 16, 0, 29],
    [0, 45, 0, 47, 0, 19, 0, 22, 0, 26],
    [0, 0, 0, 15, 0, 0, 0, 20, 23, 12],
    [0, 0, 0, 0, 46, 48, 24, 11, 0, 18],
    [0, 0, 0, 17, 14, 0, 13]]

def yypgoto : List (List Int) :=
  [[-63, -63, 88, -63, -63, -63, -63, -63, 54, -62],
    [-4, -63, -40, -63, -1]]

def yydefgoto : List (List Int) :=
  [[-1, 7, 8, 9, 10, 11, 12, 62, 63, 53],
    [54, 13, 36, 37, 64]]

def yytable : List (List Nat) :=
  [[35, 16, 17, 81, 38, 56, 57, 58, 39, 41],
    [14, 45, 42, 15, 1, 2, 3, 4, 5, 6],
    [15, 60, 93, 61, 78, 15, 49, 79, 60, 18],
    [76, 46, 43, 59, 86, 48, 102, 19, 50, 52],
    [71, 51, 44, 55, 72, 47, 82, 65, 66, 69],
    [20, 21, 22, 23, 24, 25, 26, 27, 28, 29],
    [30, 31, 32, 33, 34, 1, 2, 3, 4, 5],
    [6, 67, 70, 73, 74, 75, 84, 69, 18, 96],
    [83, 85, 87, 88, 91, 89, 19, 94, 68, 69],
    [95, 97, 99, 98, 103, 40, 104, 0, 69, 20],
    [21, 22, 23, 24, 25, 26, 27, 28, 29, 30],
    [31, 32, 33, 34, 18, 106, 77, 0, 0, 0],
    [0, 0, 19, 0, 80, 0, 0, 0, 0, 0],
    [0, 0, 0, 0, 0, 20, 21, 22, 23, 24],
    [25, 26, 27, 28, 29, 30, 31, 32, 33, 34],
    [18, 0, 0, 0, 0, 0, 0, 0, 19, 0],
    [90, 0, 0, 0, 0, 0, 0, 0, 0, 0],
    [0, 20, 21, 22, 23, 24, 25, 26, 27, 28],
    [29, 30, 31, 32, 33, 34, 18, 0, 0, 0],
    [0, 0, 0, 0, 19, 0, 92, 0, 0, 0],
    [0, 0, 0, 0, 0, 0, 0, 20, 21, 22],
    [23, 24, 25, 26, 27, 28, 29, 30, 31, 32],
    [33, 34, 18, 0, 0, 0, 0, 0, 0, 0],
    [19, 0, 100, 0, 0, 0, 0, 0, 0, 0],
    [0, 0, 0, 20, 21, 22, 23, 24, 25, 26],
    [27, 28, 29, 30, 31, 32, 33, 34, 18, 0],
    [0, 0, 0, 0, 0, 0, 19, 0, 101, 0],
    [0, 0, 0, 0, 0, 0, 0, 0, 0, 20],
    [21, 22, 23, 24, 25, 26, 27, 28, 29, 30],
    [31, 32, 33, 34, 18, 0, 0, 0, 0, 0],
    [0, 0, 19, 0, 105, 0, 0, 0, 0, 0],
    [0, 0, 0, 0, 0, 20, 21, 22, 23, 24],
    [25, 26, 27, 28, 29, 30, 31, 32, 33, 34],
    [18, 0, 0, 0, 0, 0, 0, 0, 19, 0],
    [0, 0, 0, 0, 0, 18, 0, 0, 0, 0],
    [0, 20, 21, 22, 23, 24, 25, 26, 27, 28],
    [29, 30, 31, 32, 33, 34, 20, 21, 22, 23],
    [24, 25, 26, 27, 28, 29, 30, 31, 32, 33],
    [34]]

def yycheck : List (List Int) :=
  [[4, 2, 3, 65, 5, 45, 46, 47, 0, 19],
    [5, 16, 22, 3, 6, 7, 8, 9, 10, 11],
    [3, 11, 84, 13, 18, 3, 12, 21, 11, 3],
    [13, 16, 12, 20, 74, 36, 98, 11, 4, 13],
    [17, 42, 22, 44, 21, 16, 19, 12, 23, 53],
    [24, 25, 26, 27, 28, 29, 30, 31, 32, 33],
    [34, 35, 36, 37, 38, 6, 7, 8, 9, 10],
    [11, 20, 23, 17, 21, 20, 12, 81, 3, 21],
    [20, 4, 20, 4, 4, 20, 11, 17, 13, 93],
    [17, 20, 20, 12, 20, 7, 20, -1, 102, 24],
    [25, 26, 27, 28, 29, 30, 31, 32, 33, 34],
    [35, 36, 37, 38, 3, 20, 62, -1, -1, -1],
    [-1, -1, 11, -1, 13, -1, -1, -1, -1, -1],
    [-1, -1, -1, -1, -1, 24, 25, 26, 27, 28],
    [29, 30, 31, 32, 33, 34, 35, 36, 37, 38],
    [3, -1, -1, -1, -1, -1, -1, -1, 11, -1],
    [13, -1, -1, -1, -1, -1, -1, -1, -1, -1],
    [-1, 24, 25, 26, 27, 28, 29, 30, 31, 32],
    [33, 34, 35, 36, 37, 38, 3, -1, -1, -1],
    [-1, -1, -1, -1, 11, -1, 13, -1, -1, -1],
    [-1, -1, -1, -1, -1, -1, -1, 24, 25, 26],
    [27, 28, 29, 30, 31, 32, 33, 34, 35, 36],
    [37, 38, 3, -1, -1, -1, -1, -1, -1, -1],
    [11, -1, 13, -1, -1, -1, -1, -1, -1, -1],
    [-1, -1, -1, 24, 25, 26, 27, 28, 29, 30],
    [31, 32, 33, 34, 35, 36, 37, 38, 3, -1],
    [-1, -1, -1, -1, -1, -1, 11, -1, 13, -1],
    [-1, -1, -1, -1, -1, -1, -1, -1, -1, 24],
    [25, 26, 27, 28, 29, 30, 31, 32, 33, 34],
    [35, 36, 37, 38, 3, -1, -1, -1, -1, -1],
    [-1, -1, 11, -1, 13, -1, -1, -1, -1, -1],
    [-1, -1, -1, -1, -1, 24, 25, 26, 27, 28],
    [29, 30, 31, 32, 33, 34, 35, 36, 37, 38],
    [3, -1, -1, -1, -1, -1, -1, -1, 11, -1],
    [-1, -1, -1, -1, -1, 3, -1, -1, -1, -1],
    [-1, 24, 25, 26, 27, 28, 29, 30, 31, 32],
    [33, 34, 35, 36, 37, 38, 24, 25, 26, 27],
    [28, 29, 30, 31, 32, 33, 34, 35, 36, 37],
    [38]]

def yystos : List (List Nat) :=
  [[0, 6, 7, 8, 9, 10, 11, 40, 41, 42],
    [43, 44, 45, 50, 5, 3, 53, 53, 3, 11],
    [24, 25, 26, 27, 28, 29, 30, 31, 32, 33],
    [34, 35, 36, 37, 38, 49, 51, 52, 53, 0],
    [41, 19, 22, 12, 22, 16, 16, 16, 53, 12],
    [4, 53, 13, 48, 49, 53, 51, 51, 51, 20],
    [11, 13, 46, 47, 53, 12, 23, 20, 13, 49],
    [23, 17, 21, 17, 21, 20, 13, 47, 18, 21],
    [13, 48, 19, 20, 12, 4, 51, 20, 4, 20],
    [13, 4, 13, 48, 17, 17, 21, 20, 12, 20],
    [13, 13, 48, 20, 20, 13, 20]]

def yyr1 : List (List Nat) :=
  [[0, 39, 40, 40, 41, 41, 41, 41, 41, 41],
    [42, 43, 43, 43, 43, 44, 44, 44, 44, 45],
    [45, 46, 46, 47, 47, 47, 47, 47, 48, 48],
    [49, 49, 50, 51, 51, 51, 51, 51, 51, 51],
    [51, 51, 51, 51, 51, 51, 51, 51, 51, 51],
    [52, 53]]

def yyr2 : List (List Nat) :=
  [[0, 2, 1, 2, 1, 1, 1, 1, 1, 1],
    [2, 8, 7, 11, 10, 6, 5, 9, 8, 5],
    [6, 1, 2, 3, 4, 1, 2, 1, 1, 2],
    [3, 1, 2, 1, 1, 1, 1, 1, 1, 1],
    [1, 1, 1, 1, 1, 4, 6, 4, 6, 1],
    [1, 1]]


/-- What a table has at an index. -/
def lookup {α : Type} (table : List (List α)) (outside : α) (i : Nat) : α :=
  (table.getD (i / 10) []).getD (i % 10) outside

/-- What a table has at an index that can be negative. -/
def entry {α : Type} (table : List (List α)) (outside : α) (yyn : Int) : α :=
  if 0 ≤ yyn then lookup table outside yyn.toNat else outside

/-- yydefault -/
def defaultAction (yystate : Nat) : Action :=
  match lookup yydefact 0 yystate with
  | 0 => .error
  | yyn + 1 => .reduce (yyn + 1)

/-- yybackup -/
def action (yystate yytoken : Nat) : Action :=
  let yyn := lookup yypact (-63) yystate
  if yyn = -63 then defaultAction yystate
  else if entry yycheck (-1) (yyn + yytoken) = yytoken then
    .shift (entry yytable 0 (yyn + yytoken))
  else defaultAction yystate

/-- The state behind a reduction. -/
def goto (yyssp symbol : Nat) : Nat :=
  let yystate := lookup yypgoto (-63) (symbol - 39) + yyssp
  if entry yycheck (-1) yystate = yyssp then entry yytable 0 yystate
  else (lookup yydefgoto (-1) (symbol - 39)).toNat

/-- The actions of the rules for messages. -/
def message : List Value → Option Statement
  | [_, .varName name, _, .str number, _, .varDecls list, _, _] => do
      let nSeqNo ← Literals.atoi number
      pure (.message name none nSeqNo list)
  | [_, .varName name, _, .str number, _, _, _] => do
      let nSeqNo ← Literals.atoi number
      pure (.message name none nSeqNo [])
  | [_, .varName name, _, .varName parentName, _, _, .str number, _, .varDecls list, _, _] => do
      let nSeqNo ← Literals.atoi number
      pure (.message name (some parentName) nSeqNo list)
  | [_, .varName name, _, .varName parentName, _, _, .str number, _, _, _] => do
      let nSeqNo ← Literals.atoi number
      pure (.message name (some parentName) nSeqNo [])
  | _ => none

/-- The actions of the rules for structs. -/
def struct : List Value → Option Statement
  | [_, .varName name, _, .varDecls list, _, _] => some (.message name none (-1) list)
  | [_, .varName name, _, _, _] => some (.message name none (-1) [])
  | [_, .varName name, _, .varName parentName, _, _, .varDecls list, _, _] =>
      some (.message name (some parentName) (-1) list)
  | [_, .varName name, _, .varName parentName, _, _, _, _] =>
      some (.message name (some parentName) (-1) [])
  | _ => none

/-- The actions of the rules for enums. -/
def enum : List Value → Option Statement
  | [_, .varName name, _, _, _] => some (.enum name [])
  | [_, .varName name, _, .enumDecls list, _, _] => some (.enum name list)
  | _ => none

/-- The actions of the rules for enumerators. -/
def enumDecl : List Value → Option EnumDeclNode
  | [.varName elmt, _, .str number] => some (.enumElmt elmt number)
  | [.varName elmt, _, .str number, _] => some (.enumElmt elmt number)
  | [.varName elmt] => some (.enumElmt elmt [])
  | [.varName elmt, _] => some (.enumElmt elmt [])
  | _ => none

/-- The actions of the rules for types with elements. -/
def containerType : Nat → List Value → Option TypeExpr
  | 45, [_, _, .varType elmtType, _] => some (.array elmtType)
  | 46, [_, _, .varType elmtType, _, .str elmtCount, _] => some (.staticArray elmtType elmtCount)
  | 47, [_, _, .varType elmtType, _] => some (.list elmtType)
  | 48, [_, _, .varType keyType, _, .varType elmtType, _] => some (.map keyType elmtType)
  | _, _ => none

/-- The types of the rules for primitive types, in their order. -/
def primitives : List PrimitiveType :=
  [.boolean, .byte, .ubyte, .int16, .int32, .int64, .uint16, .uint32, .uint64, .double, .float]

/-- The value of a rule. A rule without an action has that of its first symbol. -/
def build (yyn : Nat) (yyvs : List Value) : Option Value :=
  if yyn ≤ 8 then yyvs.head?
  else if yyn = 9 then some (.stmt .comment)
  else if yyn = 10 then
    match yyvs with
    | [_, .varDecl varDecl] => some (.stmt (.typedef varDecl))
    | _ => none
  else if yyn ≤ 14 then (message yyvs).map .stmt
  else if yyn ≤ 18 then (struct yyvs).map .stmt
  else if yyn ≤ 20 then (enum yyvs).map .stmt
  else if yyn = 21 then
    match yyvs with
    | [.enumDecl node] => some (.enumDecls [node])
    | _ => none
  else if yyn = 22 then
    match yyvs with
    | [.enumDecls list, .enumDecl node] => some (.enumDecls (list ++ [node]))
    | _ => none
  else if yyn ≤ 26 then (enumDecl yyvs).map .enumDecl
  else if yyn = 27 then some (.enumDecl .comment)
  else if yyn = 28 then
    match yyvs with
    | [.varDecl node] => some (.varDecls [node])
    | _ => none
  else if yyn = 29 then
    match yyvs with
    | [.varDecls list, .varDecl node] => some (.varDecls (list ++ [node]))
    | _ => none
  else if yyn = 30 then
    match yyvs with
    | [.varType varType, .varName varName, _] => some (.varDecl (.varDecl ⟨varType, varName⟩))
    | _ => none
  else if yyn = 31 then some (.varDecl .comment)
  else if yyn = 32 then
    match yyvs with
    | [.str sLanguage, .str sContext] => some (.stmt (.literal sLanguage sContext))
    | _ => none
  else if yyn ≤ 43 then
    match primitives[yyn - 33]? with
    | some type => some (.varType (.primitive type))
    | none => none
  else if yyn = 44 then some (.varType .string)
  else if yyn ≤ 48 then (containerType yyn yyvs).map .varType
  else if yyn = 49 then
    match yyvs with
    | [.varName name] => some (.varType (.userDefine name.text))
    | _ => none
  else if yyn ≤ 51 then yyvs.head?
  else none

/-- g_pRoot behind a rule. -/
def root (yyn : Nat) (yyvs : List Value) (g_pRoot : Option (List Statement)) :
    Option (Option (List Statement)) :=
  if yyn = 2 then
    match yyvs with
    | [.stmt stmt] => some (some [stmt])
    | _ => none
  else if yyn = 3 then
    match yyvs, g_pRoot with
    | [_, .stmt stmt], some list => some (some (list ++ [stmt]))
    | _, _ => none
  else some g_pRoot

/-- The action of a rule. -/
def act (yyn : Nat) (yyvs : List Value) (g_pRoot : Option (List Statement)) :
    Option (Value × Option (List Statement)) := do
  let yyval ← build yyn yyvs
  let g_pRoot ← root yyn yyvs g_pRoot
  pure (yyval, g_pRoot)

/-- No token is the end of the input. -/
theorem kind_ne_zero
    (t : Terminal) :
    kind t ≠ 0 := by
  cases t with
  | primitive type =>
      cases type <;> exact Nat.succ_ne_zero _
  | _ =>
      exact Nat.succ_ne_zero _

theorem kind_lt
    (t : Terminal) :
    kind t < 39 := by
  cases t with
  | primitive type =>
      cases type <;> simp only [kind] <;> decide
  | _ =>
      simp only [kind]
      decide

/-- The rule with a number. -/
def rule (yyn : Nat) : Rule :=
  rules.getD yyn ⟨0, []⟩

/-- The rules of parser.y with their actions. -/
def grammar : Grammar Terminal Value (Option (List Statement)) where
  numbers := List.range' 2 50
  rule := rule
  terminals := 39
  kind := kind
  kind_ne_zero := kind_ne_zero
  kind_lt := kind_lt
  value := value
  endValue := .none
  act := act

/-- The tables of parser.cpp. -/
def tables : Tables where
  action := action
  goto := goto
  final := 39
  maxDepth := 10000

/-- yyparse, with the g_pRoot that it leaves behind. The number of its steps is bounded by
`yyparse_ends`. -/
def yyparse (tokens : List Terminal) : Option (Result (Option (List Statement))) :=
  ShiftReduce.run grammar tables (14 * tokens.length + 7) ⟨[], tokens, none⟩

-- yyr1 and yyr2 are those of the rules
example :
    ∀ yyn ∈ List.range' 1 51,
      (rule yyn).lhs = lookup yyr1 0 yyn ∧ (rule yyn).rhs.length = lookup yyr2 0 yyn := by
  decide +kernel

def follow (symbol : Nat) : Nat :=
  [1, 4033, 4033, 4033, 4033, 4033, 4033, 10248, 10248, 549739046920, 549739048905, 4033,
    2228232, 2228232, 16529416].getD (symbol - 39) 0

def first (symbol : Nat) : Nat :=
  if symbol < 39 then 2 ^ symbol
  else [0, 4032, 4032, 512, 128, 256, 1024, 2056, 2056, 549739038728, 549739038728, 64,
    549739036680, 8, 8].getD (symbol - 39) 0

/-- The rules that each state is in the middle of, and how many symbols it has read. -/
def kernel : List (List (List (Nat × Nat))) :=
  [[[(1, 0)], [(32, 1)], [(11, 1), (12, 1), (13, 1), (14, 1)],
     [(15, 1), (16, 1), (17, 1), (18, 1)], [(10, 1)], [(19, 1), (20, 1)], [(9, 1)],
     [(1, 1), (3, 1)], [(2, 1)], [(6, 1)]],
    [[(4, 1)], [(5, 1)], [(7, 1)], [(8, 1)], [(32, 2)], [(51, 1)],
     [(11, 2), (12, 2), (13, 2), (14, 2)], [(15, 2), (16, 2), (17, 2), (18, 2)], [(50, 1)],
     [(31, 1)]],
    [[(33, 1)], [(34, 1)], [(35, 1)], [(36, 1)], [(37, 1)], [(38, 1)], [(39, 1)], [(40, 1)],
     [(41, 1)], [(42, 1)]],
    [[(43, 1)], [(44, 1)], [(45, 1), (46, 1)], [(47, 1)], [(48, 1)], [(10, 2)], [(30, 1)],
     [(49, 1)], [(19, 2), (20, 2)], [(1, 2)]],
    [[(3, 2)], [(11, 3), (12, 3)], [(13, 3), (14, 3)], [(15, 3), (16, 3)], [(17, 3), (18, 3)],
     [(45, 2), (46, 2)], [(47, 2)], [(48, 2)], [(30, 2)], [(19, 3), (20, 3)]],
    [[(11, 4), (12, 4)], [(13, 4), (14, 4)], [(16, 4)], [(15, 4), (29, 1)], [(28, 1)],
     [(17, 4), (18, 4)], [(45, 3), (46, 3)], [(47, 3)], [(48, 3)], [(30, 3)]],
    [[(27, 1)], [(19, 4)], [(20, 4), (22, 1)], [(21, 1)], [(23, 1), (24, 1), (25, 1), (26, 1)],
     [(11, 5), (12, 5)], [(13, 5), (14, 5)], [(16, 5)], [(15, 5)], [(29, 2)]],
    [[(17, 5), (18, 5)], [(45, 4)], [(46, 4)], [(47, 4)], [(48, 4)], [(19, 5)], [(20, 5)],
     [(22, 2)], [(23, 2), (24, 2)], [(26, 2)]],
    [[(12, 6)], [(11, 6), (29, 1)], [(13, 6), (14, 6)], [(15, 6)], [(17, 6), (18, 6)], [(46, 5)],
     [(48, 5)], [(20, 6)], [(23, 3), (24, 3)], [(12, 7)]],
    [[(11, 7)], [(13, 7), (14, 7)], [(18, 7)], [(17, 7), (29, 1)], [(46, 6)], [(48, 6)], [(24, 4)],
     [(11, 8)], [(13, 8), (14, 8)], [(18, 8)]],
    [[(17, 8)], [(14, 9)], [(13, 9), (29, 1)], [(17, 9)], [(14, 10)], [(13, 10)], [(13, 11)]]]

/-- A rule with the tokens that can come behind it. -/
def item (yyn dot : Nat) : Item :=
  ⟨yyn, dot, follow (rule yyn).lhs⟩

/-- The numbers of the rules that can begin where a symbol comes next. -/
def begins (symbol : Nat) : List Nat :=
  [[], List.range' 2 19 ++ [32], List.range' 4 17 ++ [32], [10], List.range' 11 4,
    List.range' 15 4, [19, 20], List.range' 21 7 ++ [51], List.range' 23 5 ++ [51],
    List.range' 28 4 ++ List.range' 33 18, List.range' 30 2 ++ List.range' 33 18, [32],
    List.range' 33 18, [50], [51]].getD (symbol - 39) []

/-- The symbols that come next. -/
def nextSymbols (yystate : Nat) : List Nat :=
  ((lookup kernel [] yystate).filterMap fun i => (rule i.1).rhs[i.2]?).eraseDups

def items (yystate : Nat) : List Item :=
  (lookup kernel [] yystate).map (fun i => item i.1 i.2) ++
    ((nextSymbols yystate).flatMap begins).map fun yyn => item yyn 0

/-- A rule with one symbol goes up. -/
def rank (symbol : Nat) : Nat :=
  if symbol < 39 then 0
  else [0, 6, 5, 4, 4, 4, 4, 4, 3, 4, 3, 4, 2, 1, 1].getD (symbol - 39) 0

def certificate : Certificate where
  states := 107
  start := 1
  symbol := lookup yystos 0
  items := items
  first := first
  rank := rank
  maxRank := 6

/-- What the tables do is sound: checked in every state, for every token and every rule. -/
theorem sound :
    ShiftReduce.Sound grammar tables certificate where
  states := by decide
  final := by decide
  terminals := by decide
  nonempty := by decide +kernel
  initial := by decide +kernel
  begins := by decide +kernel
  ends := by decide +kernel
  twoSymbols := by decide +kernel
  ranks := by decide +kernel
  actions := by decide +kernel
  gotos := by decide +kernel

/-- The tables do all that the rules ask for. -/
theorem complete :
    ShiftReduce.Complete grammar tables certificate where
  states := by decide
  terminals := by decide
  final := by decide
  maxDepth := by decide
  start := ⟨Nt.stmtList, rfl⟩
  begins := by decide +kernel
  lefts := by decide +kernel
  firstTerminal := by decide +kernel
  firstRule := by decide +kernel
  followed := by decide +kernel

theorem measure_initial
    (tokens : List Terminal) (g_pRoot : Option (List Statement)) :
    ShiftReduce.measure certificate
        (⟨[], tokens, g_pRoot⟩ : ShiftReduce.Config Terminal Value (Option (List Statement))) <
      14 * tokens.length + 7 := by
  have hmax : certificate.maxRank = 6 := rfl
  simp only [ShiftReduce.measure, List.length_nil, hmax]
  omega

/-- The parser starts with nothing on its stack. -/
theorem initial_inv
    (tokens : List Terminal) (g_pRoot : Option (List Statement)) :
    ShiftReduce.Inv grammar tables certificate tokens g_pRoot ⟨[], tokens, g_pRoot⟩ :=
  ShiftReduce.initial_inv (by decide) tokens g_pRoot

/-- The bound for the steps is never reached. -/
theorem yyparse_ends
    (tokens : List Terminal) :
    ∃ result, yyparse tokens = some result :=
  (initial_inv tokens none).exists_run sound (measure_initial tokens none)

/-- The parser accepts what the rules derive, as far as its stack suffices. -/
theorem yyparse_accepted_iff
    (tokens : List Terminal) (g_pRoot : Option (List Statement)) :
    yyparse tokens = some (.accepted g_pRoot) ↔
      ∃ yyvs n, ShiftReduce.Derives grammar [Nt.stmtList] tokens yyvs none g_pRoot n ∧
        n + 1 < 10000 :=
  ShiftReduce.run_accepted_iff sound complete tokens none g_pRoot (measure_initial tokens none)

/-- The memory is exhausted by long files only. -/
theorem yyparse_exhausted
    {tokens : List Terminal}
    (h : yyparse tokens = some .exhausted) :
    10000 ≤ tokens.length + 2 := by
  obtain ⟨c, hc, hstep⟩ := (initial_inv tokens none).last sound h
  exact hc.exhausted sound hstep

/-- Where an action is undefined, the right side of its rule was read. -/
theorem yyparse_undefined
    {tokens : List Terminal}
    (h : yyparse tokens = some .undefined) :
    ∃ yyn ∈ grammar.numbers, ∃ ts yyvs s s' n,
      ts <:+: tokens ∧ ShiftReduce.Derives grammar (rule yyn).rhs ts yyvs s s' n ∧
        act yyn yyvs s' = none := by
  obtain ⟨c, hc, hstep⟩ := (initial_inv tokens none).last sound h
  exact hc.undefined sound hstep

end Parser
end Idlc
end Gamnet
