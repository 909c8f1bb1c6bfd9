import BootCard.Main
import BootCard.Proofs.Asset.Restaging
import BootCard.Proofs.Card.Remembering
import BootCard.Proofs.Deployment.Digests
import BootCard.Proofs.Deployment.Images
import BootCard.Proofs.Deployment.Rebuilding
import BootCard.Proofs.Deployment.Stages
import BootCard.Proofs.Disk.Pointing
import BootCard.Proofs.Disk.Raising
import BootCard.Proofs.World.Stops
import BootCard.Proofs.Asset.Exchange
import BootCard.Proofs.Asset.Updating
import BootCard.Proofs.Asset.Resuming
import BootCard.Proofs.Disk.Emptying
import BootCard.Proofs.Deployment.Commands
import BootCard.Proofs.Deployment.Failing
import BootCard.Proofs.Command
import BootCard.Proofs.Asset.Refusal
import BootCard.Proofs.Asset.History
import BootCard.Proofs.Pathname.Trunk
import BootCard.Proofs.Image.Answering
import BootCard.Proofs.Image.Interchanging
import BootCard.Proofs.Image.Freshness
import BootCard.Proofs.Asset.Enumerating
import BootCard.Proofs.Card.Reloading
import BootCard.Proofs.Card.Awaiting
import BootCard.Proofs.Settings.Finding
import BootCard.Proofs.Settings.Precedence
import BootCard.Proofs.Asset.Hashing
