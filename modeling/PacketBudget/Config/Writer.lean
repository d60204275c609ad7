import PacketBudget.Config

/-!
Writing a configuration, so that it can be read back: every setting on a line of its own, either
with its group in front of the key or under the header of its group.
-/

namespace PacketBudget

/-- A value as it is written: strings between quotes, numbers in decimal. -/
def Assignment.text : Assignment → List Char
  | .serviceName v | .bindAddress v => '"' :: v.toList ++ ['"']
  | .memoryLimit v => (toString v.toInt).toList
  | .overhead v | .packetCap v | .maxFrame v | .readTimeout v | .reportInterval v =>
    (toString v.toNat).toList

namespace Assignment

/-- `key = value`. -/
def plainLine (a : Assignment) : List Char :=
  a.setting.key.toList ++ " = ".toList ++ a.text

/-- `group.key = value`. -/
def qualifiedLine (a : Assignment) : List Char :=
  a.setting.group.toList ++ '.' :: a.plainLine

end Assignment

namespace Config

/-- The header line of a group. -/
def headerLine (group : String) : List Char := '[' :: group.toList ++ [']']

/-- One line for each setting, the group in front. -/
def qualifiedLines (c : Config) : List (List Char) :=
  Setting.all.map fun s => (c.get s).qualifiedLine

/-- The settings under the headers of their groups. -/
def groupedLines (c : Config) : List (List Char) :=
  ["service", "net", "metrics"].flatMap fun g =>
    headerLine g :: (Setting.all.filter (·.group = g)).map fun s => (c.get s).plainLine

/-- Lines as a text. -/
def text (lines : List (List Char)) : String :=
  String.ofList (lines.intersperse ['\n']).flatten

def write (c : Config) : String := text c.groupedLines

end Config

end PacketBudget
