import GrammarTidy.Command.Host
import GrammarTidy.Machine.Volume

namespace GrammarTidy

open Command (Host LoadError Loaded SystemError)

/-! A system in memory, on which a run can be carried out and looked at: a file
system, what stands on the standard input, and what was written to the standard
output and, line by line, to the standard error output. -/

structure Machine where
  volume : Machine.Volume
  input : Bytes := []
  printed : Array UInt8 := #[]
  reported : Array String := #[]
deriving DecidableEq, Repr

namespace Machine

/-! Of the devices only the standard input has anything to read, and none announces
a size. A folder can be opened, but not read. Making a device leaves it as it is. -/

def Device.contents (machine : Machine) : Device → Bytes
  | .input => machine.input
  | _ => []

def load (path : String) : ExceptT LoadError (StateM Machine) Loaded :=
  ExceptT.mk fun machine =>
    let result :=
      match machine.volume.find (Path.ofText path) with
      | .error cause => .error (.cannotOpen cause)
      | .ok .folder => .error (.cannotRead .isFolder)
      | .ok (.file contents) => .ok { announced := contents.length, contents }
      | .ok (.device device) => .ok { announced := 0, contents := device.contents machine }
    (result, machine)

def Device.write (machine : Machine) (bytes : Bytes) :
    Device → Except SystemError Unit × Machine
  | .null => (.ok (), machine)
  | .input => (.ok (), machine)
  | .full => (if bytes.isEmpty then .ok () else .error .noSpace, machine)
  | .output => (.ok (), { machine with printed := machine.printed ++ bytes })

def write (names : Names) (bytes : Bytes) : ExceptT SystemError (StateM Machine) Unit :=
  ExceptT.mk fun machine =>
    match machine.volume.node? names with
    | some (.device device) => device.write machine bytes
    | _ => (.ok (), { machine with volume := machine.volume.append names bytes })

def create (path : String) :
    ExceptT SystemError (StateM Machine) (Bytes → ExceptT SystemError (StateM Machine) Unit) :=
  ExceptT.mk fun machine =>
    match machine.volume.place (Path.ofText path) with
    | .error cause => (.error cause, machine)
    | .ok names =>
        match machine.volume.node? names with
        | some (.device _) => (.ok (write names), machine)
        | _ => (.ok (write names), { machine with volume := machine.volume.set names (.file []) })

def host : Host (StateM Machine) where
  load := load
  create := create
  print text := modify fun machine : Machine =>
    { machine with printed := machine.printed ++ Bytes.ofText text }
  report text := modify fun machine : Machine =>
    { machine with reported := machine.reported ++ cut '\n' text }

end Machine

end GrammarTidy
