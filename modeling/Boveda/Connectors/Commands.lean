/-
# The command of a MySQL dump

`build_mysql_dump_command` of `src/boveda/connectors.py`.  With a password the
connection is written to a file for `--defaults-extra-file`, each value as it is.

`mysqldump` reads the values by the rules of option files (`Boveda.Lib.OptionFile`).
It finds those that were meant just when no rule applies to any of them
(`definesConnection_iff`); a line break begins another option.
-/

import Boveda.Lib.Bytes
import Boveda.Lib.OptionFile

namespace Boveda
namespace Connectors

open Lib

/-- What `build_mysql_dump_command` returns, and the text of the file at `cnfPath`. -/
structure DumpCommand where
  cmd : List String
  env : List (String × String) := []
  cnfPath : Option String := none
  cnfText : Option (List Char) := none

/-- The text of the option file, with the port as it is written. -/
def optionText (host port user password : String) : List Char :=
  "[client]\nhost=".toList ++ host.toList ++ "\nport=".toList ++ port.toList ++
    "\nuser=".toList ++ user.toList ++ "\npassword=".toList ++ password.toList ++ ['\n']

/-- `build_mysql_dump_command`; `tempFile` is the path that `mkstemp` has made. -/
def buildMysqlDumpCommand (tempFile dbName host port user : String) (password : Option String)
    (customFlags : List String) : DumpCommand :=
  let flags := ["--single-transaction", "--quick", "--skip-lock-tables", "--routines",
    "--triggers", "--events"]
  match password with
  | some password =>
    { cmd := "mysqldump" :: ("--defaults-extra-file=" ++ tempFile) :: flags ++ customFlags ++
        [dbName]
      cnfPath := some tempFile
      cnfText := some (optionText host port user password) }
  | none =>
    { cmd := "mysqldump" :: flags ++ ["-h", host, "-P", port, "-u", user] ++ customFlags ++
        [dbName] }

/-- The options of the connection. -/
def connection (host port user password : String) : List (List Char × List Char) :=
  [("host".toList, host.toList), ("port".toList, port.toList), ("user".toList, user.toList),
    ("password".toList, password.toList)]

/-- The file of a command defines the connection, and nothing else. -/
def DefinesConnection (c : DumpCommand) (host port user password : String) : Prop :=
  ∃ text, c.cnfText = some text ∧ OptionFile.read text =
    some (OptionFile.entries "client".toList (connection host port user password))

theorem optionText_eq (host port user password : String) :
    optionText host port user password =
      OptionFile.write "client".toList (connection host port user password) := by
  have hhost : "[client]\nhost=".toList =
      '[' :: ("client".toList ++ ']' :: '\n' :: ("host".toList ++ ['='])) := by decide
  have hport : "\nport=".toList = '\n' :: ("port".toList ++ ['=']) := by decide
  have huser : "\nuser=".toList = '\n' :: ("user".toList ++ ['=']) := by decide
  have hpassword : "\npassword=".toList = '\n' :: ("password".toList ++ ['=']) := by decide
  unfold optionText connection
  rw [hhost, hport, huser, hpassword]
  generalize "client".toList = group
  generalize "host".toList = n₁
  generalize "port".toList = n₂
  generalize "user".toList = n₃
  generalize "password".toList = n₄
  simp only [OptionFile.write, OptionFile.writeOption, List.flatMap_cons,
    List.flatMap_nil, List.append_assoc, List.cons_append, List.nil_append, List.append_nil]

/-- **The file says what was meant** just when every value is read as it stands. -/
theorem definesConnection_iff (tempFile dbName host port user password : String)
    (customFlags : List String) :
    DefinesConnection
        (buildMysqlDumpCommand tempFile dbName host port user (some password) customFlags)
        host port user password ↔
      ∀ value ∈ [host, port, user, password], OptionFile.Clean value.toList := by
  have hnames : ∀ field ∈ connection host port user password, OptionFile.IsName field.1 := by
    simp only [connection, List.forall_mem_cons]
    exact ⟨by decide, by decide, by decide, by decide, fun _ h => absurd h List.not_mem_nil⟩
  have hgroup : ∀ c ∈ "client".toList, c ≠ ']' ∧ OptionFile.IsLetter c :=
    forall_mem_of_all (by decide)
  have hread := OptionFile.read_write_iff hgroup hnames
  rw [← optionText_eq] at hread
  have hfile : DefinesConnection
      (buildMysqlDumpCommand tempFile dbName host port user (some password) customFlags)
      host port user password ↔ OptionFile.read (optionText host port user password) =
        some (OptionFile.entries "client".toList (connection host port user password)) := by
    constructor
    · rintro ⟨text, htext, h⟩
      obtain rfl := Option.some.inj htext
      exact h
    · exact fun h => ⟨_, rfl, h⟩
  rw [hfile, hread]
  simp [connection]

/-- A password with a `#` is cut short. -/
theorem not_definesConnection_hash : ¬ ∀ (tempFile dbName host port user password : String)
    (customFlags : List String), DefinesConnection
      (buildMysqlDumpCommand tempFile dbName host port user (some password) customFlags)
      host port user password := by
  intro h
  obtain ⟨text, htext, hread⟩ :=
    h "/tmp/boveda_my_1.cnf" "erp" "localhost" "3306" "root" "pa#ss" []
  obtain rfl := Option.some.inj htext
  exact absurd hread (by decide +kernel)

end Connectors
end Boveda
