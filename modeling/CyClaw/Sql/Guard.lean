/-
The read-only guard of the SQL connector, `agentic/sqlconnect/client.py`.

`assertReadOnlySql` blanks the quoted regions of a statement in one pass from left to
right and then looks for separators, comments and forbidden words in what is left.  The
pass knows the quoting forms of the dialect it is given.  It emits the text in pieces, a
character or a blanked region each, newest first here, and the two refusals of escaped
literals look back at the last pieces emitted.

`uw` says which characters beyond ASCII Python's `\w` accepts.
-/
import CyClaw.Lib.PyText
import CyClaw.Lib.Regex

namespace CyClaw.Sql

open PyText Regex

/-! ### The expressions -/

/-- Python's `\w`. -/
def pyWord (uw : Char → Bool) (c : Char) : Bool :=
  if c.toNat < 128 then c.isAlphanum || c == '_' else uw c

/-- Under `IGNORECASE` a lower-case ASCII letter also accepts its capital, and three of them
accept letters beyond ASCII. -/
def caseless (c d : Char) : Bool :=
  d.toLower == c ||
    (c == 'i' && (d.toNat == 0x130 || d.toNat == 0x131)) ||
    (c == 's' && d.toNat == 0x17F) ||
    (c == 'k' && d.toNat == 0x212A)

/-- A word of an expression compiled with `IGNORECASE`. -/
def caselessWord (k : String) : Re := literal caseless k.toList

def forbiddenWords : List (List Char) :=
  ["insert", "update", "delete", "drop", "alter", "create", "truncate", "grant", "revoke",
    "merge", "call", "exec", "execute", "into", "copy", "vacuum", "attach", "begin", "commit",
    "rollback", "updlock", "holdlock", "xlock", "tablockx", "tablock", "paglock",
    "serializable", "openrowset", "openquery", "opendatasource"].map String.toList

/-- `_FORBIDDEN_RE`. -/
def forbiddenRe : Re := wholeWord (alts (forbiddenWords.map (literal caseless)))

/-- `_FORBIDDEN_FN_RE`. -/
def forbiddenFnRe (uw : Char → Bool) : Re :=
  wholeWord (alts
    [.seq (caselessWord "pg_read_") (.plus (.cls (pyWord uw))),
      .seq (caselessWord "pg_ls_") (.plus (.cls (pyWord uw))),
      caselessWord "pg_stat_file", caselessWord "lo_import", caselessWord "lo_export",
      .seq (caselessWord "dblink") (.star (.cls (pyWord uw))),
      caselessWord "pg_sleep", caselessWord "pg_terminate_backend",
      caselessWord "pg_cancel_backend", caselessWord "pg_file_write",
      caselessWord "pg_file_rename", caselessWord "pg_file_unlink", caselessWord "pg_logdir_ls"])

/-- One part of a dotted name: `\[[^\]]+\]|[\w$]+`. -/
def namePartRe (uw : Char → Bool) : Re :=
  .alt (.seq (.cls (· == '[')) (.seq (.plus (.cls (· != ']'))) (.cls (· == ']'))))
    (.plus (.cls fun c => pyWord uw c || c == '$'))

/-- A dot and the part after it, which may be missing. -/
def dottedPartRe (uw : Char → Bool) : Re :=
  .seq (.star (.cls isSpace)) (.seq (.cls (· == '.'))
    (.seq (.star (.cls isSpace)) (.alt (namePartRe uw) .eps)))

/-- `_MSSQL_FOUR_PART_RE`. -/
def fourPartRe (uw : Char → Bool) : Re :=
  .seq (namePartRe uw) (.seq (dottedPartRe uw) (.seq (dottedPartRe uw)
    (.plus (dottedPartRe uw))))

/-! ### Refusals -/

/-- The `SqlConnectError`s of the guard, all with the code `SQLCONNECT_BAD_QUERY`. -/
inductive Refusal where
  | empty
  | unterminated (opener : Char)
  | unterminatedDollar (tag : List Char)
  | escapeString
  | unicodeEscape
  | comments
  | multipleStatements
  | notSelect
  | forbiddenKeyword (keyword : List Char)
  | fourPartName (name : List Char)
deriving DecidableEq, Repr

/-- `repr` of one of the three openers. -/
def reprOpener (c : Char) : String := if c = '\'' then "\"'\"" else "'" ++ String.ofList [c] ++ "'"

/-- `repr` of a text made of word characters. -/
def reprWord (t : List Char) : String := "'" ++ String.ofList t ++ "'"

def Refusal.message : Refusal → String
  | .empty => "empty SQL"
  | .unterminated c => "unterminated " ++ reprOpener c ++ " quoted region in SQL"
  | .unterminatedDollar tag =>
      "unterminated " ++ String.ofList tag ++ " dollar-quoted region in SQL"
  | .escapeString => "escape-string literals (E'...') are not allowed in read-only queries"
  | .unicodeEscape =>
      "unicode-escaped identifiers/literals (U&\"...\") are not allowed in read-only queries"
  | .comments => "SQL comments are not allowed in read-only queries"
  | .multipleStatements => "multiple statements are not allowed"
  | .notSelect => "only SELECT/WITH queries are allowed"
  | .forbiddenKeyword k => "forbidden keyword in read-only query: " ++ reprWord k
  | .fourPartName _ =>
      "linked-server / four-part object names are not allowed in read-only queries"

/-! ### Blanking quoted regions -/

/-- `VALID_DRIVERS`. -/
inductive Driver where
  | postgres
  | mssql
deriving DecidableEq, Repr

/-- `_simple_quotes_for`: the closer of each opener. -/
def simpleQuotesFor (driver : Driver) (c : Char) : Option Char :=
  if c = '\'' then some '\''
  else if c = '"' then some '"'
  else if driver = .mssql ∧ c = '[' then some ']'
  else none

/-- `_skip_simple_quote`, from just after the opener: the region as written and the text after
its closer, or nothing where the region is not terminated. -/
def skipSimpleQuote (closer : Char) : List Char → Option (List Char × List Char)
  | [] => none
  | [c] => if c = closer then some ([], []) else none
  | c :: d :: t =>
      if c = closer then
        -- doubled closer escapes itself; keep going
        if d = closer then (skipSimpleQuote closer t).map fun (b, r) => (c :: d :: b, r)
        else some ([], d :: t)
      else (skipSimpleQuote closer (d :: t)).map fun (b, r) => (c :: b, r)

/-- `[A-Za-z_]` and `[A-Za-z0-9_]`. -/
def tagStart (c : Char) : Bool := c.isAlpha || c == '_'

def tagChar (c : Char) : Bool := c.isAlphanum || c == '_'

/-- `_DOLLAR_TAG_RE.match`, from just after the first `$`: the tag and the text after the
second `$`. -/
def dollarTagRe : List Char → Option (List Char × List Char)
  | [] => none
  | c :: t =>
      if c = '$' then some ([], t)
      else if tagStart c then
        match t.dropWhile tagChar with
        | '$' :: r => some (c :: t.takeWhile tagChar, r)
        | _ => none
      else none

/-- `_skip_dollar_quote`, from just after the first `$`: the text after the region, or nothing
where no region starts. -/
def skipDollarQuote (t : List Char) : Except Refusal (Option (List Char)) :=
  match dollarTagRe t with
  | none => .ok none
  | some (tag, rest) =>
      match splitAt? ('$' :: tag ++ ['$']) rest with
      | none => .error (.unterminatedDollar ('$' :: tag ++ ['$']))
      | some (_, after) => .ok (some after)

/-- `_IDENT_CHARS`, of an emitted piece. -/
def isIdentPiece : List Char → Bool
  | [c] => c.isAlphanum || c == '_' || c == '$'
  | _ => false

/-- `_is_escape_string_prefix` -/
def isEscapeStringPrefix : List (List Char) → Bool
  | [] => false
  | [e] => e == ['E'] || e == ['e']
  | e :: s :: _ => (e == ['E'] || e == ['e']) && !isIdentPiece s

/-- `_is_unicode_escape_prefix` -/
def isUnicodeEscapePrefix : List (List Char) → Bool
  | [] => false
  | [_] => false
  | [a, u] => a == ['&'] && (u == ['U'] || u == ['u'])
  | a :: u :: s :: _ => (a == ['&'] && (u == ['U'] || u == ['u'])) && !isIdentPiece s

/-- What a quoted region is replaced by: a blank, or for an identifier that is kept its text
between blanks. -/
def blanked (keepIdentifiers : Bool) (opener : Char) (body : List Char) : List Char :=
  if keepIdentifiers && opener != '\'' then ' ' :: body ++ [' '] else [' ']

/-- The loop of `_strip_quoted`; `out` is what was emitted, newest first. -/
def stripLoop (driver : Driver) (keepIdentifiers : Bool) :
    Nat → List (List Char) → List Char → Except Refusal (List (List Char))
  | 0, out, _ => .ok out
  | _, out, [] => .ok out
  | n + 1, out, c :: t =>
      match simpleQuotesFor driver c with
      | some closer =>
          if c = '\'' ∧ isEscapeStringPrefix out then .error .escapeString
          else if isUnicodeEscapePrefix out then .error .unicodeEscape
          else
            match skipSimpleQuote closer t with
            | none => .error (.unterminated c)
            | some (body, rest) =>
                stripLoop driver keepIdentifiers n (blanked keepIdentifiers c body :: out) rest
      | none =>
          if driver ≠ .mssql ∧ c = '$' then
            match skipDollarQuote t with
            | .error e => .error e
            | .ok none => stripLoop driver keepIdentifiers n ([c] :: out) t
            | .ok (some rest) => stripLoop driver keepIdentifiers n ([' '] :: out) rest
          else stripLoop driver keepIdentifiers n ([c] :: out) t

/-- The text of the emitted pieces. -/
def emitted (out : List (List Char)) : List Char := out.reverse.flatten

/-- `_strip_quoted` -/
def stripQuoted (driver : Driver) (keepIdentifiers : Bool) (sql : List Char) :
    Except Refusal (List Char) :=
  (stripLoop driver keepIdentifiers sql.length [] sql).map emitted

/-! ### The guard -/

/-- `sql.strip().rstrip(";").strip()` -/
def cleaned (sql : List Char) : List Char := strip (rstripBy (· == ';') (strip sql))

/-- `t.lower().startswith(k)` for `"select"` and `"with"`: no character beyond ASCII lower-cases
to a text these words could go on with. -/
def startsWithLower (k : String) (t : List Char) : Bool :=
  k.toList.isPrefixOf (t.map Char.toLower)

/-- `assert_read_only_sql` -/
def assertReadOnlySql (uw : Char → Bool) (driver : Driver) (sql : List Char) :
    Except Refusal (List Char) :=
  if (strip sql).isEmpty then .error .empty
  else
    match stripQuoted driver false (cleaned sql) with
    | .error e => .error e
    | .ok scan =>
        if contains ['-', '-'] scan || contains ['/', '*'] scan || contains ['*', '/'] scan then
          .error .comments
        else if contains [';'] scan then .error .multipleStatements
        else if !(startsWithLower "select" (cleaned sql) || startsWithLower "with" (cleaned sql)) then
          .error .notSelect
        else
          match search (pyWord uw) forbiddenRe scan with
          | some hit => .error (.forbiddenKeyword hit)
          | none =>
              match stripQuoted driver true (cleaned sql) with
              | .error e => .error e
              | .ok named =>
                  match search (pyWord uw) (forbiddenFnRe uw) named with
                  | some hit => .error (.forbiddenKeyword hit)
                  | none =>
                      match search (pyWord uw) (fourPartRe uw) named with
                      | some name => .error (.fourPartName name)
                      | none => .ok (cleaned sql)

end CyClaw.Sql
