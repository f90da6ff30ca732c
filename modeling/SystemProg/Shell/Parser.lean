import Mathlib.Algebra.Group.Nat.Defs
import Mathlib.Tactic.Common

set_option autoImplicit false

-- `2/parser.cpp`. Bytes are `char` values. A failed `assert` ends the program: functions answer
-- `failed` or `none` there.

namespace SystemProg.Shell

abbrev Byte := UInt8
abbrev Text := List Byte

def byte (c : Char) : Byte := c.toNat.toUInt8

inductive TokenType where
  | none
  | str
  | newLine
  | pipe
  | and
  | or
  | outNew
  | outAppend
  | background
deriving DecidableEq, Repr

structure Token where
  type : TokenType
  data : Text
deriving DecidableEq, Repr

inductive ParserError where
  | none
  | pipeWithNoLeftArg
  | pipeWithLeftArgNotACommand
  | andWithNoLeftArg
  | andWithLeftArgNotACommand
  | orWithNoLeftArg
  | orWithLeftArgNotACommand
  | outoutRedirectBadArg
  | tooLateArguments
  | endsNotWithACommand
deriving DecidableEq, Repr

structure Command where
  exe : Text
  args : List Text
deriving DecidableEq, Repr

inductive Expr where
  | command (cmd : Command)
  | pipe
  | and
  | or
deriving DecidableEq, Repr

inductive OutputType where
  | stdout
  | fileNew
  | fileAppend
deriving DecidableEq, Repr

structure CommandLine where
  exprs : List Expr
  outType : OutputType
  outFile : Text
  isBackground : Bool
deriving DecidableEq, Repr

def Expr.isCommand : Expr → Bool
  | .command _ => true
  | _ => false

def uint32 (n : Nat) : Nat := n % 2 ^ 32

-- What `parse_token` leaves: a failed assertion, no token yet, or a token and its length.
inductive Scan where
  | failed
  | incomplete
  | token (t : Token) (used : Nat)
deriving DecidableEq, Repr

def isSpace (c : Byte) : Bool :=
  c = byte ' ' ∨ c = byte '\t' ∨ c = byte '\n' ∨ c = 11 ∨ c = 12 ∨ c = byte '\r'

def scanComment (used : Nat) : Text → Scan
  | [] => .incomplete
  | c :: rest =>
      if c = byte '\n' then .token ⟨.newLine, []⟩ (used + 1) else scanComment (used + 1) rest

def operatorType (c : Byte) (doubled : Bool) : TokenType :=
  if c = byte '&' then if doubled then .and else .background
  else if c = byte '|' then if doubled then .or else .pipe
  else if doubled then .outAppend else .outNew

-- One turn of the second loop of `parse_token`: it returns, or it goes on behind the byte it looks
-- at or behind the next one.
inductive Move where
  | failed
  | incomplete
  | token (type : TokenType) (data : Text) (length : Nat)
  | comment
  | one (quote : Byte) (data : Text)
  | two (quote : Byte) (data : Text)
deriving DecidableEq, Repr

-- The switch of the loop at a backslash outside single quotes, with the byte after it.
def escapeMove (quote : Byte) (data : Text) : Option Byte → Move
  | none => if quote = byte '"' ∨ quote = 0 then .incomplete else .failed
  | some d =>
      if quote = byte '"' then
        if d = byte '\\' then .two quote (data ++ [d])
        else if d = byte '\n' then .two quote data
        else if d = byte '"' then .two quote (data ++ [d])
        else .two quote (data ++ [byte '\\', d])
      else if quote ≠ 0 then .failed
      else if d = byte '\n' then .two quote data
      else .two quote (data ++ [d])

def operatorMove (c : Byte) : Option Byte → Move
  | none => .incomplete
  | some d =>
      if d = c then .token (operatorType c true) [] 2 else .token (operatorType c false) [] 1

def wordSwitch (quote : Byte) (data : Text) (c : Byte) (escape operator : Move) : Move :=
  if c = byte '\'' ∨ c = byte '"' then
    if quote = 0 then .one c data
    else if quote ≠ c then .one quote (data ++ [c])
    else .token .str data 1
  else if c = byte '\\' then
    if quote = byte '\'' then .one quote (data ++ [c]) else escape
  else if c = byte '&' ∨ c = byte '|' ∨ c = byte '>' then
    if quote ≠ 0 then .one quote (data ++ [c])
    else if data ≠ [] then .token .str data 0
    else operator
  else if c = byte ' ' ∨ c = byte '\t' ∨ c = byte '\r' then
    if quote ≠ 0 then .one quote (data ++ [c])
    else if data = [] then .failed
    else .token .str data 1
  else if c = byte '\n' then
    if quote ≠ 0 then .one quote (data ++ [c])
    else if data = [] then .failed
    else .token .str data 0
  else if c = byte '#' then
    if quote ≠ 0 then .one quote (data ++ [c])
    else if data ≠ [] then .token .str data 0
    else .comment
  else .one quote (data ++ [c])

def wordMove (quote : Byte) (data : Text) (c : Byte) (next : Option Byte) : Move :=
  wordSwitch quote data c (escapeMove quote data next) (operatorMove c next)

-- The second loop of `parse_token`, after `used` bytes.
def scanWord (used : Nat) (quote : Byte) (data : Text) : Text → Scan
  | [] => .incomplete
  | c :: rest =>
      match wordMove quote data c rest.head? with
      | .failed => .failed
      | .incomplete => .incomplete
      | .token type data length => .token ⟨type, data⟩ (used + length)
      | .comment => scanComment (used + 1) rest
      | .one quote data => scanWord (used + 1) quote data rest
      | .two quote data => scanWord (used + 2) quote data rest.tail
termination_by input => input.length

-- The first loop of `parse_token`, which skips white space.
def scanToken (used : Nat) : Text → Scan
  | [] => .incomplete
  | c :: rest =>
      if isSpace c then
        if c = byte '\n' then .token ⟨.newLine, []⟩ (used + 1) else scanToken (used + 1) rest
      else scanWord used 0 [] (c :: rest)

-- The length is returned as a `uint32_t`, and zero means that there is no token.
def parseToken (input : Text) : Scan :=
  match scanToken 0 input with
  | .token t used => if uint32 used = 0 then .incomplete else .token t (uint32 used)
  | other => other

theorem parseToken_shorter {input : Text} {t : Token} {used : Nat}
    (scanned : parseToken input = .token t used) : (input.drop used).length < input.length := by
  unfold parseToken at scanned
  cases input with
  | nil => cases scanned
  | cons c rest =>
      split at scanned
      · split at scanned
        · cases scanned
        · next some =>
            cases scanned
            simp only [List.length_drop, List.length_cons]
            omega
      · next other => exact absurd scanned (other t used)

-- How `parser_pop_next` leaves, with the length of what it consumes.
inductive Outcome where
  | failed
  | noLine
  | line (line : CommandLine) (consumed : Nat)
  | error (code : ParserError) (consumed : Nat)
deriving DecidableEq, Repr

-- `return_error`
def skipLine (code : ParserError) (pos : Nat) (rest : Text) : Outcome :=
  match _scanned : parseToken rest with
  | .failed => .failed
  | .incomplete => .noLine
  | .token t used =>
      if t.type = .newLine then .error code (pos + used)
      else skipLine code (pos + used) (rest.drop used)
termination_by rest.length
decreasing_by exact parseToken_shorter _scanned

def finishLine (line : CommandLine) (pos : Nat) (rest : Text) (token : Token) : Outcome :=
  if token.type = .newLine then
    match line.exprs.getLast? with
    | none => .failed
    | some last =>
        if last.isCommand then .line line pos else .error .endsNotWithACommand pos
  else skipLine .tooLateArguments pos rest

def closeBackground (line : CommandLine) (pos : Nat) (rest : Text) (token : Token) : Outcome :=
  if token.type = .background then
    match parseToken rest with
    | .failed => .failed
    | .incomplete => .noLine
    | .token next used =>
        finishLine { line with isBackground := true } (pos + used) (rest.drop used) next
  else finishLine line pos rest token

-- `close_and_return`
def closeLine (line : CommandLine) (pos : Nat) (rest : Text) (token : Token) : Outcome :=
  if token.type = .outNew ∨ token.type = .outAppend then
    match parseToken rest with
    | .failed => .failed
    | .incomplete => .noLine
    | .token file used =>
        if file.type ≠ .str then skipLine .outoutRedirectBadArg (pos + used) (rest.drop used)
        else
          match parseToken (rest.drop used) with
          | .failed => .failed
          | .incomplete => .noLine
          | .token next used' =>
              let outType := if token.type = .outNew then .fileNew else .fileAppend
              closeBackground { line with outType := outType, outFile := file.data }
                (pos + used + used') ((rest.drop used).drop used') next
  else closeBackground line pos rest token

inductive Turn where
  | failed
  | more (exprs : List Expr)
  | close
  | error (code : ParserError)
deriving DecidableEq, Repr

def pushWord (exprs : List Expr) (word : Text) : List Expr :=
  match exprs.getLast? with
  | some (.command cmd) => exprs.dropLast ++ [.command { cmd with args := cmd.args ++ [word] }]
  | _ => exprs ++ [.command ⟨word, []⟩]

def pushOperator (exprs : List Expr) (operator : Expr) (noLeftArg notACommand : ParserError) :
    Turn :=
  match exprs.getLast? with
  | none => .error noLeftArg
  | some last => if last.isCommand then .more (exprs ++ [operator]) else .error notACommand

def readToken (exprs : List Expr) (token : Token) : Turn :=
  match token.type with
  | .str => .more (pushWord exprs token.data)
  | .newLine => if exprs = [] then .more exprs else .close
  | .pipe => pushOperator exprs .pipe .pipeWithNoLeftArg .pipeWithLeftArgNotACommand
  | .and => pushOperator exprs .and .andWithNoLeftArg .andWithLeftArgNotACommand
  | .or => pushOperator exprs .or .orWithNoLeftArg .orWithLeftArgNotACommand
  | .outNew | .outAppend | .background => .close
  | .none => .failed

def lineOf (exprs : List Expr) : CommandLine :=
  { exprs := exprs, outType := .stdout, outFile := [], isBackground := false }

def parseLine (exprs : List Expr) (pos : Nat) (rest : Text) : Outcome :=
  match _scanned : parseToken rest with
  | .failed => .failed
  | .incomplete => .noLine
  | .token t used =>
      match readToken exprs t with
      | .failed => .failed
      | .more exprs => parseLine exprs (pos + used) (rest.drop used)
      | .close => closeLine (lineOf exprs) (pos + used) (rest.drop used) t
      | .error code => skipLine code (pos + used) (rest.drop used)
termination_by rest.length
decreasing_by exact parseToken_shorter _scanned

structure Parser where
  buffer : Text
deriving DecidableEq, Repr

def parserNew : Parser := ⟨[]⟩

def parserFeed (p : Parser) (str : Text) : Parser := ⟨p.buffer ++ str⟩

def parserConsume (p : Parser) (size : Nat) : Option Parser :=
  if p.buffer.length ≥ uint32 size then some ⟨p.buffer.drop (uint32 size)⟩ else none

def parserPopNext (p : Parser) : Option (ParserError × Option CommandLine × Parser) :=
  match parseLine [] 0 p.buffer with
  | .failed => none
  | .noLine => some (.none, none, p)
  | .line line consumed => (parserConsume p consumed).map fun p => (.none, some line, p)
  | .error code consumed => (parserConsume p consumed).map fun p => (code, none, p)

end SystemProg.Shell
