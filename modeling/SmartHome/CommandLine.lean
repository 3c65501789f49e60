/-
# `CommandLine` — `command_line_interface.c`: one pass of the command loop

The loop reads a word, keeps a copy, splits the original and decides from the
first token and the number of tokens whether the copy is published.  `--help` prints
the file `src/commands` by way of a buffer on the stack.
-/
import SmartHome.Device

namespace SmartHome

open Traced

namespace CommandLine

def help : CStr := "--help".toList
def invalidNumber : CStr :=
  "Invalid number of arguments, please input --help for assistance.\n".toList
def unrecognized : CStr := "Unrecognized command, please input --help for assistance.\n".toList

/-- What follows once the number of tokens a command needs is known. -/
def publishCommand (expected : Nat) (tokensLength : Nat) (message : CStr) : Exec Unit :=
  if tokensLength ≠ expected then print invalidNumber
  else do
    print ("Publishing: ".toList ++ message ++ "\n".toList)
    publish Topic.controler message

/-- `MAX_BUF_LEN` -/
def maxBufLen : Nat := 5000

/-- What the function `help` prints, with the bytes of the file it opens, where it can, and
those `src` holds before.  No NUL is put behind what `fread` reads. -/
def helpPrints (file : Option (List Char)) (src : List Char) : CStr :=
  match file with
  | none => "Nemere\n".toList
  | some bytes =>
      let text := bytes.take maxBufLen
      cstr (text ++ src.drop text.length)

/-- `src/commands` -/
def commandsFile : CStr :=
  "Available commands are:\n\n".toList ++
    "Get_Dev_Info.Id          --- obtaining device info \n".toList ++
    "Set_Dev_Info.Id.Info     --- setting device info \n".toList ++
    "Get_Dev_Value.Id         --- obtaining device value\n".toList ++
    "Set_Dev_Value.Id.Value   --- setting device value\n\n".toList ++
    "Get_Dev_Info.*           ---get info of all available devices\n".toList ++
    "Get_Dev_Value.*          ---get value of all available devices\n\n\n".toList

/-- One pass of the loop in `main` on the bytes `scanf("%s", input)` read; `commands` is
what `help` prints. -/
def loop (commands : CStr) (word : List Char) : Exec Unit := do
  let input := cstr word
  write .input input
  let message := input
  write .command message
  let tokens ← strSplit input delimiter
  let tokensLength := tokens.length
  let command ← load tokens 0
  let command ← use command
  if command = MesType.getDevInfo ∨ command = MesType.getDevValue then
    publishCommand 2 tokensLength message
  else if command = MesType.setDevInfo ∨ command = MesType.setDevValue then
    publishCommand 3 tokensLength message
  else if command = help then print commands
  else print unrecognized

end CommandLine

end SmartHome
