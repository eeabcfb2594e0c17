import Cartridge.Container.Operation
import Cartridge.Container.Summary
import Cartridge.Main
import Cartridge.Proofs.Compression.Encoding
import Cartridge.Proofs.Container.Failure
import Cartridge.Proofs.Container.FirstLoad
import Cartridge.Proofs.Container.Completion
import Cartridge.Proofs.Container.Representation
import Cartridge.Proofs.Container.Answers
import Cartridge.Proofs.Container.Sections
import Cartridge.Proofs.Container.Origin
import Cartridge.Proofs.Container.Relocation
import Cartridge.Proofs.Boot.Booting
import Cartridge.Proofs.Command.Extraction
import Cartridge.Proofs.Container.Pairing
import Cartridge.Proofs.Container.Isolation
import Cartridge.Proofs.Storage.Overwriting
import Cartridge.Proofs.Container.Imaging
import Cartridge.Proofs.Storage.Copying
import Cartridge.Proofs.Command.Contents
import Cartridge.Proofs.Command.Keeping
import Cartridge.Proofs.Storage.Siblings
import Cartridge.Proofs.Command.Installation
import Cartridge.Proofs.Container.Locating
import Cartridge.Proofs.Container.Overflow
import Cartridge.Proofs.Container.Renaming
import Cartridge.Proofs.Record.Lossless
import Cartridge.Proofs.Compression.Verbatim
import Cartridge.Proofs.Storage.Writers
import Cartridge.Proofs.Container.Finding
import Cartridge.Proofs.Compression.Bounds
import Cartridge.Proofs.Record.Names
import Cartridge.Proofs.Command.Dumping
